import FederationGraph.Path

/-!
# Paths by their segments

A path is known by its segments, and one path continues another exactly if its
segments begin with all of the other's and go on. The test on the texts thus
decides the strict prefix order of the segments: a path that merely begins with
the same characters, as `items` does with `item`, continues nothing.
-/
namespace FederationGraph.Path

theorem segments_ne_nil (path : String) : segments path ≠ [] := by
  rw [segments, ne_eq, List.map_eq_nil_iff]
  exact List.splitOn_ne_nil _ _

theorem segments_append (stem rest : String) :
    segments (stem ++ "." ++ rest) = segments stem ++ segments rest := by
  have hdot : (stem ++ "." ++ rest).toList = stem.toList ++ '.' :: rest.toList := by
    simp [String.toList_append]
  rw [segments, hdot, List.splitOn_append_cons_self, List.map_append, segments, segments]

theorem ofNames_segments (path : String) : ofNames (segments path) = path := by
  rw [← String.toList_inj, ofNames, String.toList_intercalate, segments, List.map_map]
  have hid : String.toList ∘ String.ofList = id := by
    funext l
    exact String.toList_ofList
  rw [hid, List.map_id]
  exact List.intercalate_splitOn '.'

theorem segments_inj {path other : String} : segments path = segments other ↔ path = other := by
  refine ⟨fun h => ?_, congrArg segments⟩
  rw [← ofNames_segments path, h, ofNames_segments]

theorem ofNames_append {names rest : List String} (hn : names ≠ []) (hr : rest ≠ []) :
    ofNames (names ++ rest) = ofNames names ++ "." ++ ofNames rest := by
  induction names with
  | nil => exact absurd rfl hn
  | cons name names ih =>
    by_cases h : names = []
    · subst h
      rw [List.singleton_append, ofNames_cons name hr, ofNames_singleton]
    · rw [List.cons_append, ofNames_cons name (by simp [h]), ih h, ofNames_cons name h]
      simp only [String.append_assoc]

theorem continues_iff {stem path : String} :
    continues stem path = true ↔ ∃ rest, path = stem ++ "." ++ rest := by
  rw [continues, List.isPrefixOf_iff_prefix]
  constructor
  · rintro ⟨rest, h⟩
    refine ⟨String.ofList rest, ?_⟩
    rw [← String.toList_inj, ← h]
    simp [String.toList_append]
  · rintro ⟨rest, rfl⟩
    exact ⟨rest.toList, by simp [String.toList_append]⟩

theorem length_lt_of_continues {stem path : String} (h : continues stem path = true) :
    stem.length < path.length := by
  obtain ⟨rest, rfl⟩ := continues_iff.mp h
  have hd : ".".length = 1 := rfl
  simp only [String.length_append]
  omega

/-- A path continues another exactly if its segments begin with all of the other's and go on. -/
theorem continues_iff_segments {stem path : String} :
    continues stem path = true ↔ segments stem <+: segments path ∧ stem ≠ path := by
  constructor
  · intro h
    refine ⟨?_, fun e => Nat.lt_irrefl _ (e ▸ length_lt_of_continues h)⟩
    obtain ⟨rest, rfl⟩ := continues_iff.mp h
    rw [segments_append]
    exact List.prefix_append _ _
  · rintro ⟨⟨rest, h⟩, hne⟩
    have hrest : rest ≠ [] := by
      rintro rfl
      rw [List.append_nil] at h
      exact hne (segments_inj.mp h)
    refine continues_iff.mpr ⟨ofNames rest, ?_⟩
    rw [← ofNames_segments path, ← h, ofNames_append (segments_ne_nil stem) hrest,
      ofNames_segments]

end FederationGraph.Path
