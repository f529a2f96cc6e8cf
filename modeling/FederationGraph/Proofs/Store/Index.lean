import FederationGraph.Proofs.Json.LineEnds
import FederationGraph.Proofs.Analysis.RoundTrip
import FederationGraph.Store.Basic

/-!
# The index of a store

What the index says of analyses is read back from its text unless a number in it
has too many digits, and every entry is read back as it was entered. Sorting a
listing neither adds nor drops an entry and moves none past another one of the
same time.
-/
namespace FederationGraph

/-- Whether the numbers that the index says of an analysis are short enough to be read back. -/
structure Metadata.Indexable (m : Metadata) : Prop where
  totalTypes : (Decimal.digits m.totalTypes.natAbs).length ≤ Decimal.mostDigits
  totalDependencies : (Decimal.digits m.totalDependencies.natAbs).length ≤ Decimal.mostDigits

instance (m : Metadata) : Decidable m.Indexable :=
  decidable_of_iff (_ ∧ _) ⟨fun ⟨ht, hd⟩ => ⟨ht, hd⟩, fun h => ⟨h.totalTypes, h.totalDependencies⟩⟩

theorem Metadata.fits_indexValue {m : Metadata} (h : m.Indexable) (depth : Nat) :
    Json.Fits false (depth + 1) m.indexValue := by
  have hshort : ∀ n : Int, (Decimal.digits n.natAbs).length ≤ Decimal.mostDigits →
      Json.Fits false depth (.integer n) := fun n hn =>
    Json.fits_integer.mpr fun hlong =>
      absurd ((Json.isLong_false_iff n).mp hlong) (Nat.not_lt.mpr hn)
  rw [indexValue, Json.fits_object_succ]
  simp only [List.forall_mem_cons]
  exact ⟨Json.fits_of_parts rfl rfl (by simp), hshort _ h.totalTypes, hshort _ h.totalDependencies,
    by simp⟩

theorem Metadata.keysDistinct_indexValue (m : Metadata) : m.indexValue.KeysDistinct := by
  simp [indexValue, Value.keysDistinct_object]

theorem Metadata.finitePart_indexValue (m : Metadata) : m.indexValue.finitePart = m.indexValue := by
  simp [indexValue]

namespace Store

/-- What the index says when the given analyses are stored. -/
def indexOf (live : OrderedMap Analysis) : OrderedMap Value :=
  live.map fun a => a.metadata.indexValue

theorem isFinite_indexOf (live : OrderedMap Analysis) :
    (Value.object (indexOf live).entries).IsFinite := by
  have hsame : (Value.object (indexOf live).entries).finitePart =
      .object (indexOf live).entries := by
    simp [indexOf, OrderedMap.map, Metadata.finitePart_indexValue]
  rw [← hsame]
  exact Value.isFinite_finitePart _

theorem read_indexText {live : OrderedMap Analysis}
    (h : ∀ entry ∈ live.entries, entry.2.metadata.Indexable) :
    Json.read (indexText (indexOf live)) = .ok (.object (indexOf live).entries) := by
  have hkeys : (Value.object (indexOf live).entries).KeysDistinct := by
    refine Value.keysDistinct_object.mpr ⟨(indexOf live).distinct, fun entry hentry => ?_⟩
    obtain ⟨a, -, rfl⟩ := List.mem_map.mp hentry
    exact a.2.metadata.keysDistinct_indexValue
  have hfits : Json.Fits false Json.documentDepth (.object (indexOf live).entries) := by
    refine Json.fits_object_succ.mpr fun entry hentry => ?_
    obtain ⟨a, ha, rfl⟩ := List.mem_map.mp hentry
    exact Metadata.fits_indexValue (h a ha) _
  rw [indexText, Json.read_text Json.readable_listed (isFinite_indexOf live) hkeys]
  exact ⟨hfits, rfl⟩

theorem unifyLineEnds_indexText (live : OrderedMap Analysis) :
    String.ofList (Text.unifyLineEnds (indexText (indexOf live)).toList) =
      indexText (indexOf live) :=
  Json.unifyLineEnds_text Json.readable_listed (isFinite_indexOf live)

theorem indexOf_insert (live : OrderedMap Analysis) (key : String) (a : Analysis) :
    (indexOf live).insert key a.metadata.indexValue = indexOf (live.insert key a) :=
  (live.map_insert (fun a : Analysis => a.metadata.indexValue) key a).symm

/-! ## Entries -/

/-- The entry of a listing for a stored analysis. -/
def entryOf (entry : String × Analysis) : IndexEntry where
  schemaIdentifier := entry.1
  analyzedAt := entry.2.metadata.analyzedAt.text
  totalTypes := entry.2.metadata.totalTypes
  totalDependencies := entry.2.metadata.totalDependencies

theorem readEntry_indexValue (entry : String × Analysis) :
    readEntry entry.1 entry.2.metadata.indexValue = .ok (entryOf entry) := by
  simp [readEntry, Metadata.indexValue, IndexEntry.ofValue, Value.ofEntries,
    OrderedMap.entries_ofList, Reading.record_of_nodup, Members.required, Members.value?,
    List.lookup_cons, Reading.text, Reading.integer, entryOf]

theorem mapM_readEntry (live : OrderedMap Analysis) :
    ((indexOf live).entries.mapM fun (key, value) => readEntry key value) =
      .ok (live.entries.map entryOf) := by
  have hread : (fun (key, value) => readEntry key value) ∘
      (fun entry : String × Analysis => (entry.1, entry.2.metadata.indexValue)) =
        fun entry => pure (entryOf entry) :=
    funext readEntry_indexValue
  rw [indexOf, OrderedMap.map, List.mapM_map, hread, List.mapM_pure]
  rfl

/-! ## Sorting -/

theorem noOlder_trans (a b c : IndexEntry) (hab : noOlder a b = true) (hbc : noOlder b c = true) :
    noOlder a c = true := by
  simp only [noOlder, decide_eq_true_eq] at *
  exact String.le_trans hbc hab

theorem noOlder_total (a b : IndexEntry) : (noOlder a b || noOlder b a) = true := by
  simp only [noOlder, Bool.or_eq_true, decide_eq_true_eq]
  exact String.le_total _ _

/-- Elements that may stand in any order are left in theirs by sorting. -/
theorem filter_mergeSort {α : Type} {le : α → α → Bool}
    (htrans : ∀ a b c, le a b = true → le b c = true → le a c = true)
    (htotal : ∀ a b, (le a b || le b a) = true) {keep : α → Bool}
    (hequal : ∀ a b, keep a = true → keep b = true → le a b = true) (elements : List α) :
    (elements.mergeSort le).filter keep = elements.filter keep := by
  have hkept : (elements.filter keep).Pairwise fun a b => le a b = true := by
    refine List.pairwise_of_forall_mem_list fun a ha b hb => ?_
    exact hequal a b (List.mem_filter.mp ha).2 (List.mem_filter.mp hb).2
  -- these are in order already, so sorting keeps them as they are
  have hsub := List.sublist_mergeSort htrans htotal hkept List.filter_sublist
  have hfiltered := hsub.filter keep
  rw [List.filter_filter] at hfiltered
  simp only [Bool.and_self] at hfiltered
  refine (hfiltered.eq_of_length ?_).symm
  exact (((List.mergeSort_perm elements le).filter _).length_eq).symm

/-- A listing of entries: all of them, the ones with the greatest text for their time first, and
equal ones in their former order. -/
structure Lists (entries listing : List IndexEntry) : Prop where
  perm : listing.Perm entries
  descending : listing.Pairwise fun a b => b.analyzedAt ≤ a.analyzedAt
  stable : ∀ time, listing.filter (·.analyzedAt = time) = entries.filter (·.analyzedAt = time)

theorem lists_mergeSort (entries : List IndexEntry) :
    Lists entries (entries.mergeSort noOlder) where
  perm := List.mergeSort_perm _ _
  descending := by
    refine (List.pairwise_mergeSort noOlder_trans noOlder_total entries).imp fun h => ?_
    simpa [noOlder] using h
  stable time := by
    refine filter_mergeSort noOlder_trans noOlder_total (fun a b ha hb => ?_) entries
    simp only [decide_eq_true_eq] at ha hb
    simp [noOlder, ha, hb]

end Store

end FederationGraph
