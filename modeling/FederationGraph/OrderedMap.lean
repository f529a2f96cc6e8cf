/-!
# Maps in order of first insertion

A finite map from texts to values that remembers the order in which its keys
first appeared. Writing under a known key replaces the value and keeps the
position. No key occurs twice.
-/
namespace FederationGraph

universe u v

/-- Entries with distinct keys, in order of first insertion. -/
structure OrderedMap (α : Type u) where
  entries : List (String × α)
  distinct : (entries.map Prod.fst).Nodup

namespace OrderedMap

variable {α : Type u} {β : Type v}

/-- The entries after writing `value` under `key`. -/
def write (key : String) (value : α) : List (String × α) → List (String × α)
  | [] => [(key, value)]
  | (k, v) :: rest =>
    if k = key then (key, value) :: rest else (k, v) :: write key value rest

theorem map_fst_write (key : String) (value : α) (entries : List (String × α)) :
    (write key value entries).map Prod.fst =
      if key ∈ entries.map Prod.fst then entries.map Prod.fst
      else entries.map Prod.fst ++ [key] := by
  induction entries with
  | nil => simp [write]
  | cons entry rest ih =>
    obtain ⟨k, v⟩ := entry
    by_cases h : k = key
    · simp [write, h]
    · have h' : key ≠ k := fun e => h e.symm
      simp only [write, h, if_false, List.map_cons, ih, List.mem_cons, h', false_or]
      split <;> simp

theorem nodup_write {key : String} {value : α} {entries : List (String × α)}
    (h : (entries.map Prod.fst).Nodup) : ((write key value entries).map Prod.fst).Nodup := by
  rw [map_fst_write]
  split
  · exact h
  · rename_i hk
    exact List.nodup_append.2 ⟨h, by simp, by
      intro a ha b hb e
      simp only [List.mem_singleton] at hb
      exact hk (hb ▸ e ▸ ha)⟩

/-- The map without entries. -/
def empty : OrderedMap α := ⟨[], List.nodup_nil⟩

instance : Inhabited (OrderedMap α) := ⟨empty⟩

/-- The keys in order of first insertion. -/
def keys (m : OrderedMap α) : List String := m.entries.map Prod.fst

/-- The values in the order of their keys. -/
def values (m : OrderedMap α) : List α := m.entries.map Prod.snd

/-- The number of keys. -/
def size (m : OrderedMap α) : Nat := m.entries.length

/-- The value under a key. -/
def get? (m : OrderedMap α) (key : String) : Option α := m.entries.lookup key

/-- Whether a key is present. -/
def contains (m : OrderedMap α) (key : String) : Bool := (m.get? key).isSome

/-- Writes a value under a key; a known key keeps its position. -/
def insert (m : OrderedMap α) (key : String) (value : α) : OrderedMap α :=
  ⟨write key value m.entries, nodup_write m.distinct⟩

/-- Replaces the value under a key, which is absent or present. -/
def alter (m : OrderedMap α) (key : String) (f : Option α → α) : OrderedMap α :=
  m.insert key (f (m.get? key))

/-- The map that results from writing the entries one after the other. -/
def ofList (entries : List (String × α)) : OrderedMap α :=
  entries.foldl (fun m entry => m.insert entry.1 entry.2) empty

/-- The map with every value replaced. -/
def map (f : α → β) (m : OrderedMap α) : OrderedMap β where
  entries := m.entries.map fun entry => (entry.1, f entry.2)
  distinct := by
    have h := m.distinct
    simpa [List.map_map, Function.comp_def] using h

@[ext] theorem ext {m n : OrderedMap α} (h : m.entries = n.entries) : m = n := by
  cases m; cases n; simp_all

@[simp] theorem keys_empty : (empty : OrderedMap α).keys = [] := rfl

@[simp] theorem get?_empty (key : String) : (empty : OrderedMap α).get? key = none := rfl

theorem keys_insert (m : OrderedMap α) (key : String) (value : α) :
    (m.insert key value).keys = if key ∈ m.keys then m.keys else m.keys ++ [key] :=
  map_fst_write key value m.entries

/-- Reading after writing. -/
theorem get?_insert (m : OrderedMap α) (key other : String) (value : α) :
    (m.insert key value).get? other = if other = key then some value else m.get? other := by
  obtain ⟨entries, distinct⟩ := m
  simp only [get?, insert]
  clear distinct
  induction entries with
  | nil =>
    by_cases h : other = key
    · simp [write, h]
    · simp [write, List.lookup_cons, h, beq_false_of_ne h]
  | cons entry rest ih =>
    obtain ⟨k, v⟩ := entry
    by_cases hk : k = key
    · subst hk
      by_cases ho : other = k
      · simp [write, ho]
      · simp [write, List.lookup_cons, ho, beq_false_of_ne ho]
    · by_cases ho : other = k
      · subst ho
        simp [write, hk]
      · simp [write, hk, List.lookup_cons, beq_false_of_ne ho, ih]

private theorem lookup_eq_none {entries : List (String × α)} {key : String}
    (h : key ∉ entries.map Prod.fst) : entries.lookup key = none := by
  rw [List.lookup_eq_none_iff]
  intro entry he
  exact bne_iff_ne.mpr fun e => h (List.mem_map.mpr ⟨entry, he, e.symm⟩)

/-- An entry is what is found under its key. -/
theorem mem_entries {m : OrderedMap α} {key : String} {value : α} :
    (key, value) ∈ m.entries ↔ m.get? key = some value := by
  obtain ⟨entries, distinct⟩ := m
  simp only [get?]
  induction entries with
  | nil => simp
  | cons entry rest ih =>
    obtain ⟨k, v⟩ := entry
    simp only [List.map_cons, List.nodup_cons] at distinct
    rw [List.mem_cons, ih distinct.2, List.lookup_cons]
    by_cases h : key = k
    · subst h
      simp [lookup_eq_none distinct.1, eq_comm]
    · simp [h, beq_false_of_ne h]

theorem mem_keys {m : OrderedMap α} {key : String} : key ∈ m.keys ↔ (m.get? key).isSome := by
  rw [Option.isSome_iff_exists]
  constructor
  · intro h
    obtain ⟨entry, he, rfl⟩ := List.mem_map.mp h
    exact ⟨entry.2, mem_entries.mp he⟩
  · rintro ⟨value, h⟩
    exact List.mem_map_of_mem (mem_entries.mpr h)

theorem mem_values {m : OrderedMap α} {value : α} :
    value ∈ m.values ↔ ∃ key, m.get? key = some value := by
  constructor
  · intro h
    obtain ⟨entry, he, rfl⟩ := List.mem_map.mp h
    exact ⟨entry.1, mem_entries.mp he⟩
  · rintro ⟨key, h⟩
    exact List.mem_map_of_mem (mem_entries.mpr h)

theorem get?_map (m : OrderedMap α) (f : α → β) (key : String) :
    (m.map f).get? key = (m.get? key).map f := by
  obtain ⟨entries, distinct⟩ := m
  simp only [get?, map]
  clear distinct
  induction entries with
  | nil => rfl
  | cons entry rest ih =>
    rw [List.map_cons, List.lookup_cons, List.lookup_cons, ih]
    cases key == entry.1 <;> rfl

theorem get?_alter (m : OrderedMap α) (key other : String) (f : Option α → α) :
    (m.alter key f).get? other =
      if other = key then some (f (m.get? key)) else m.get? other :=
  get?_insert m key other _

/-- Of several values written under a key the last one stays. -/
theorem get?_foldl_insert (entries : List (String × α)) (m : OrderedMap α) (key : String) :
    (entries.foldl (fun m entry => m.insert entry.1 entry.2) m).get? key =
      ((entries.filter fun entry => entry.1 = key).getLast?.map Prod.snd).or (m.get? key) := by
  induction entries generalizing m with
  | nil => rfl
  | cons entry rest ih =>
    rw [List.foldl_cons, ih, get?_insert]
    by_cases h : entry.1 = key
    · rw [List.filter_cons_of_pos (by simpa using h), List.getLast?_cons, if_pos h.symm]
      cases (rest.filter fun entry => entry.1 = key).getLast? <;> rfl
    · rw [List.filter_cons_of_neg (by simpa using h), if_neg fun e => h e.symm]

theorem get?_ofList (entries : List (String × α)) (key : String) :
    (ofList entries).get? key =
      (entries.filter fun entry => entry.1 = key).getLast?.map Prod.snd := by
  rw [ofList, get?_foldl_insert, get?_empty, Option.or_none]

/-- If only one key contributes anything, all values together contribute what its value does. -/
theorem flatMap_values (m : OrderedMap α) (key : String) (f : α → List β)
    (only : ∀ other value, m.get? other = some value → other ≠ key → f value = []) :
    m.values.flatMap f = ((m.get? key).map f).getD [] := by
  have hall : ∀ entry ∈ m.entries, entry.1 ≠ key → f entry.2 = [] :=
    fun entry he => only entry.1 entry.2 (mem_entries.mp he)
  obtain ⟨entries, distinct⟩ := m
  simp only [get?, values] at hall ⊢
  clear only
  induction entries with
  | nil => rfl
  | cons entry rest ih =>
    obtain ⟨k, v⟩ := entry
    simp only [List.map_cons, List.nodup_cons] at distinct
    have hr := ih distinct.2 fun entry he => hall entry (List.mem_cons_of_mem _ he)
    rw [List.map_cons, List.flatMap_cons, List.lookup_cons, hr]
    by_cases h : key = k
    · subst h
      simp [lookup_eq_none distinct.1]
    · have hv : f v = [] := hall (k, v) List.mem_cons_self fun e => h e.symm
      simp [hv, beq_false_of_ne h]

end OrderedMap

end FederationGraph
