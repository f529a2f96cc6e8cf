/-!
# Dotted paths

The path of a selection is the names from the root of the field set down to it,
joined with dots. Its segments are what stands between the dots; a path has at
least one segment, and a segment may be empty.
-/
namespace FederationGraph.Path

/-- The path through the given names. -/
def ofNames (names : List String) : String := ".".intercalate names

/-- What stands between the dots of a path. -/
def segments (path : String) : List String := (path.toList.splitOn '.').map String.ofList

/-- Whether a path has a single segment. -/
def isSingle (path : String) : Bool := !path.toList.contains '.'

/-- Whether `path` continues `stem` with a dot and more. -/
def continues (stem path : String) : Bool := (stem.toList ++ ['.']).isPrefixOf path.toList

/-- The segments of a path are its names if no name holds a dot. -/
theorem segments_ofNames {names : List String} (hne : names ≠ [])
    (h : ∀ name ∈ names, '.' ∉ name.toList) : segments (ofNames names) = names := by
  have hl : (ofNames names).toList = ['.'].intercalate (names.map String.toList) :=
    String.toList_intercalate
  have hd : ∀ l ∈ names.map String.toList, '.' ∉ l := by
    intro l hl
    obtain ⟨name, hn, rfl⟩ := List.mem_map.mp hl
    exact h name hn
  rw [segments, hl, List.splitOn_intercalate '.' hd (by simpa using hne), List.map_map]
  simp [Function.comp_def]

@[simp] theorem ofNames_singleton (name : String) : ofNames [name] = name := by
  simp [ofNames]

theorem ofNames_cons (name : String) {names : List String} (h : names ≠ []) :
    ofNames (name :: names) = name ++ "." ++ ofNames names := by
  cases names with
  | nil => exact absurd rfl h
  | cons other names => simp [ofNames, String.intercalate_cons_cons]

/-- A path that goes through one more name is longer. -/
theorem length_ofNames_lt (above : List String) (between name : String) :
    (ofNames (above ++ [name])).length < (ofNames (above ++ [between] ++ [name])).length := by
  have hd : ".".length = 1 := rfl
  induction above with
  | nil =>
    rw [List.nil_append, List.nil_append, List.singleton_append, ofNames_cons between (by simp),
      ofNames_singleton]
    simp only [String.length_append]
    omega
  | cons first above ih =>
    rw [List.cons_append, List.cons_append, List.cons_append, ofNames_cons first (by simp),
      ofNames_cons first (by simp)]
    simp only [String.length_append]
    omega

end FederationGraph.Path
