import FederationGraph.Proofs.Store.Returning
import FederationGraph.Proofs.Time.Order

/-!
# The latest analysis

A store lists what it keeps by the texts of the times. For times in universal time
the listing is by time: the latest ones come first, and of several at one instant
the one that was kept first. The first of the listing is the most recent analysis.
It is read from the file that is named after the digest of its identifier, and it
comes back unless its text is refused or a later analysis has taken that file.
-/
namespace FederationGraph

/-- When an analysis was made. -/
def Analysis.moment (a : Analysis) : Int := a.metadata.analyzedAt.moment

namespace Store

open FileTree

variable {s : Store} {t after : FileTree} {kept ranked : List Analysis} {a top : Analysis}

/-! ## Ranks -/

/-- The analysis that was kept first of those with the latest time. -/
def FirstLatest (kept : List Analysis) (top : Analysis) : Prop :=
  ∃ earlier later, kept = earlier ++ top :: later ∧
    (∀ a ∈ earlier, a.moment < top.moment) ∧ ∀ a ∈ later, a.moment ≤ top.moment

/-- Whether an analysis comes no later than another one. -/
def noEarlier (a b : Analysis) : Bool := b.moment ≤ a.moment

theorem FirstLatest.le (h : FirstLatest kept top) (ha : a ∈ kept) : a.moment ≤ top.moment := by
  obtain ⟨earlier, later, rfl, hearlier, hlater⟩ := h
  rcases List.mem_append.mp ha with ha | ha
  · exact (hearlier a ha).le
  · rcases List.mem_cons.mp ha with rfl | ha
    · exact le_rfl
    · exact hlater a ha

/-- The analysis that was the last one to be written to the file for an identifier. -/
def inFile (kept : List Analysis) (id : String) : Option Analysis :=
  (kept.filter fun a => fileName a.metadata.schemaIdentifier = fileName id).getLast?

/-- The listing entry of an analysis. -/
def entryFor (a : Analysis) : IndexEntry := entryOf (a.metadata.schemaIdentifier, a)

/-- What a store holds after analyses have been kept one after the other: all of them in the index,
and the last one of each file in that file. -/
structure Records (s : Store) (t : FileTree) (kept : List Analysis) : Prop where
  folder : s.Absent t ∨ s.Present t
  index : s.index t = .ok (indexOf (live (kept.map .put)))
  files : ∀ id, t.node? (s.file (fileName id)) =
    (inFile kept id).map fun a => .file (.text a.storedText)

theorem inFile_append (kept : List Analysis) (a : Analysis) (id : String) :
    inFile (kept ++ [a]) id =
      if fileName id = fileName a.metadata.schemaIdentifier then some a else inFile kept id := by
  rw [inFile, List.filter_append]
  split
  · rename_i hsame
    rw [List.filter_cons_of_pos (by simpa using hsame.symm), List.filter_nil,
      List.getLast?_concat]
  · rename_i hother
    rw [List.filter_cons_of_neg (by simpa using fun h => hother h.symm), List.filter_nil,
      List.append_nil]
    rfl

theorem live_put_append (kept : List Analysis) (a : Analysis) :
    live ((kept ++ [a]).map .put) =
      (live (kept.map .put)).insert a.metadata.schemaIdentifier a := by
  rw [live, List.map_append, List.foldl_append]
  rfl

theorem entries_live_put (hids : (kept.map (·.metadata.schemaIdentifier)).Nodup) :
    (live (kept.map .put)).entries = kept.map fun a => (a.metadata.schemaIdentifier, a) := by
  have hlive : live (kept.map .put) =
      .ofList (kept.map fun a => (a.metadata.schemaIdentifier, a)) := by
    rw [live, OrderedMap.ofList, List.foldl_map, List.foldl_map]
    rfl
  rw [hlive, OrderedMap.entries_ofList]
  simpa [List.map_map, Function.comp_def] using hids

theorem forall_mem_entries_live {p : Analysis → Prop} (h : ∀ a ∈ kept, p a) :
    ∀ entry ∈ (live (kept.map .put)).entries, p entry.2 := by
  induction kept using List.reverseRecOn with
  | nil => simp [live, OrderedMap.empty]
  | append_singleton kept a ih =>
    intro entry hentry
    rw [live_put_append] at hentry
    rcases OrderedMap.mem_entries_insert hentry with rfl | hentry
    · exact h a (by simp)
    · exact ih (fun b hb => h b (List.mem_append_left _ hb)) entry hentry

theorem Records.put (hs : s.WellPlaced) (h : s.Records t kept)
    (hshort : ∀ b ∈ kept ++ [a], b.metadata.Indexable) :
    ∃ after, s.put t a = (after, .ok ()) ∧ s.Records after (kept ++ [a]) := by
  have hnode : t.node? (s.file (fileName a.metadata.schemaIdentifier)) ≠ some .folder := by
    rw [h.files]
    cases inFile kept a.metadata.schemaIdentifier <;> simp
  obtain ⟨written, hput, hpresent, hnodes⟩ := exists_put hs h.folder hnode
  -- the index does not notice that the file is written
  have hsame : s.index written = s.index t := by
    apply index_congr hs h.folder (.inr hpresent)
    rw [hnodes, if_neg (fileName_ne_indexName _).symm]
  have henter := enter_eq hs hpresent (hsame.trans h.index) a.metadata
  rw [indexOf_insert, ← live_put_append] at henter
  have hafter := hpresent.put hs indexName
    (.file (.text (indexText (indexOf (live ((kept ++ [a]).map .put))))))
  refine ⟨_, hput.trans henter, .inr hafter, ?_, fun id => ?_⟩
  · refine index_of_node hs (.inr hafter) (forall_mem_entries_live hshort) ?_
    rw [node?_put_file, if_pos rfl]
  · rw [node?_put_file, if_neg (fileName_ne_indexName id), hnodes, inFile_append, h.files]
    split <;> rfl

theorem Records.run (hs : s.WellPlaced) {more : List Analysis} (h : s.Records t kept)
    (hshort : ∀ b ∈ kept ++ more, b.metadata.Indexable) :
    ∃ after, s.run t (more.map .put) = (after, .ok ()) ∧ s.Records after (kept ++ more) := by
  induction more generalizing t kept with
  | nil => exact ⟨t, rfl, by rwa [List.append_nil]⟩
  | cons a more ih =>
    rw [List.append_cons] at hshort ⊢
    obtain ⟨next, hput, hnext⟩ := h.put hs fun b hb => hshort b (List.mem_append_left _ hb)
    obtain ⟨after, hrun, hafter⟩ := ih hnext hshort
    refine ⟨after, ?_, hafter⟩
    rw [List.map_cons, Store.run, change, hput]
    exact hrun

/-! ## Answers -/

/-- In universal time the order of the entries is that of the times. -/
theorem mergeSort_entryFor (hutc : ∀ a ∈ kept, a.metadata.analyzedAt.Utc) :
    (kept.map entryFor).mergeSort noOlder = (kept.mergeSort noEarlier).map entryFor := by
  refine (List.map_mergeSort fun a ha b hb => ?_).symm
  exact decide_eq_decide.mpr (Instant.text_le_iff (hutc b hb) (hutc a ha)).symm

theorem Records.list_eq (h : s.Records t kept)
    (hids : (kept.map (·.metadata.schemaIdentifier)).Nodup)
    (hutc : ∀ a ∈ kept, a.metadata.analyzedAt.Utc) :
    s.list t = .ok ((kept.mergeSort noEarlier).map entryFor) := by
  rw [list, h.index]
  simp only [Except.bind, mapM_readEntry, Except.map, entries_live_put hids, List.map_map]
  exact congrArg Except.ok (mergeSort_entryFor hutc)

/-- An analysis of a type whose directive has the given argument. -/
def analyzed (id : String) (time : Instant) (argument : Value) : Analysis :=
  { Analysis.withArgument argument with metadata := ⟨time, id, "s", 1, 1⟩ }

end Store

end FederationGraph
