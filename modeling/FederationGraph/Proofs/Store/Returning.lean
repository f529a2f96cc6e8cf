import FederationGraph.Proofs.Analysis.Reloading
import FederationGraph.Proofs.Store.History

/-!
# Analyses that come back from a store

Keeping an analysis writes two files of the store's folder and nothing else there.
The file of the analysis is written first, so that it comes back even where the
index is not to be read; what it comes back as is decided by its stored text.

The analysis of a schema comes back as it was if and only if its text is accepted
by the reader of stored values and no number in it is infinite or no number at
all: the text has null for such a number.
-/
namespace FederationGraph.Store

open FileTree

variable {s : Store} {t after : FileTree}

/-- A store in which an analysis can be kept: its folder is there or can be made, its index is to be
read if it is there, and no folder stands where the file of the analysis goes. -/
structure Usable (s : Store) (t : FileTree) (id : String) : Prop where
  placed : s.WellPlaced
  folder : s.Absent t ∨ s.Present t
  indexed : ∃ entries, s.index t = .ok entries
  unblocked : t.node? (s.file (fileName id)) ≠ some .folder

/-! ## What keeping writes -/

/-- What the index says depends on its own file alone. -/
theorem index_congr (hs : s.WellPlaced) (ht : s.Absent t ∨ s.Present t)
    (ha : s.Absent after ∨ s.Present after)
    (hnode : after.node? (s.file indexName) = t.node? (s.file indexName)) :
    s.index after = s.index t := by
  rw [index, index, holds_eq hs ha isName_indexName, holds_eq hs ht isName_indexName, hnode]
  cases hn : t.node? (s.file indexName) with
  | none => rfl
  | some node =>
    rw [read_of_node hs ha isName_indexName (hnode.trans hn),
      read_of_node hs ht isName_indexName hn]

theorem Absent.index_eq (hs : s.WellPlaced) (h : s.Absent t) : s.index t = .ok .empty := by
  have hnone : t.node? (s.file indexName) = none := h.nothing _ (List.prefix_append _ _)
  rw [index, holds_eq hs (.inl h) isName_indexName, hnone]
  rfl

/-- The file of an analysis is written before the index is looked at. -/
theorem exists_put (hs : s.WellPlaced) (ht : s.Absent t ∨ s.Present t) {a : Analysis}
    (hnode : t.node? (s.file (fileName a.metadata.schemaIdentifier)) ≠ some .folder) :
    ∃ written, s.put t a = s.enter written a.metadata ∧ s.Present written ∧
      ∀ name, written.node? (s.file name) =
        if name = fileName a.metadata.schemaIdentifier then some (.file (.text a.storedText))
        else t.node? (s.file name) := by
  obtain ⟨made, hmade, hpresent, hsame⟩ := exists_makeFolder hs ht
  have hwrite := write_eq hs hpresent (isName_fileName a.metadata.schemaIdentifier)
    (by rwa [hsame]) a.storedText
  have hwritten := hpresent.put hs (fileName a.metadata.schemaIdentifier)
    (.file (.text a.storedText))
  refine ⟨_, ?_, hwritten, fun name => ?_⟩
  · rw [put, hmade]
    simp only [hwrite]
  · rw [node?_put_file, hsame]

/-- Entering an analysis changes no file but the index, whether it can be entered or not. -/
theorem enter_keeps (hs : s.WellPlaced) (h : s.Present t) (m : Metadata) :
    s.Present (s.enter t m).1 ∧ ∀ name, name ≠ indexName →
      (s.enter t m).1.node? (s.file name) = t.node? (s.file name) := by
  cases hindex : s.index t with
  | error fault =>
    rw [enter, hindex]
    exact ⟨h, fun _ _ => rfl⟩
  | ok entries =>
    rw [enter_eq hs h hindex]
    refine ⟨h.put hs _ _, fun name hne => ?_⟩
    rw [node?_put_file, if_neg hne]

theorem enter_ok (hs : s.WellPlaced) (h : s.Present t) {entries : OrderedMap Value}
    (hindex : s.index t = .ok entries) (m : Metadata) : (s.enter t m).2 = .ok () := by
  rw [enter_eq hs h hindex]

/-- In a usable store an analysis is kept and comes back as it reads from its text. -/
theorem Usable.exists_get {a : Analysis} (h : s.Usable t a.metadata.schemaIdentifier) :
    ∃ after, s.put t a = (after, .ok ()) ∧
      s.get after a.metadata.schemaIdentifier = reloaded a := by
  obtain ⟨written, hput, hpresent, hnodes⟩ := exists_put h.placed h.folder h.unblocked
  obtain ⟨entries, hindex⟩ := h.indexed
  have hsame : s.index written = s.index t := by
    refine index_congr h.placed h.folder (.inr hpresent) ?_
    rw [hnodes, if_neg (fileName_ne_indexName _).symm]
  have hok := enter_ok h.placed hpresent (hsame.trans hindex) a.metadata
  obtain ⟨hafter, hkept⟩ := enter_keeps h.placed hpresent a.metadata
  refine ⟨(s.enter written a.metadata).1, by rw [hput, ← hok], ?_⟩
  refine get_of_node h.placed (.inr hafter) ?_
  rw [hkept _ (fileName_ne_indexName _), hnodes, if_pos rfl]

/-! ## The analysis of a schema -/

theorem finitePart_eq_self_iff {a : Analysis} (hkeys : a.toValue.KeysDistinct)
    (htime : a.metadata.analyzedAt.Proper) : a.finitePart = a ↔ a.toValue.IsFinite := by
  refine ⟨fun h => ?_, fun h => Analysis.finitePart_eq_self hkeys h htime⟩
  rw [← h, Analysis.toValue_finitePart]
  exact a.toValue.isFinite_finitePart

/-- An analysis comes back unchanged exactly if its text is accepted and holds all its numbers. -/
theorem reloaded_eq_ok_iff {a : Analysis} (hkeys : a.toValue.KeysDistinct)
    (htime : a.metadata.analyzedAt.Proper) :
    reloaded a = .ok a ↔ Json.Storable a.toValue ∧ a.toValue.IsFinite := by
  obtain ⟨hloaded, hrefused⟩ := reloaded_eq hkeys htime
  rw [← finitePart_eq_self_iff hkeys htime]
  by_cases hfits : Json.Storable a.toValue
  · simp [hloaded hfits, hfits]
  · simp [hrefused hfits, answerOf, Reading.refuse, hfits]

theorem schemaIdentifier_of_ofSource {source identifier : String} {subgraph : Option String}
    {now : Instant} {a : Analysis}
    (h : Analysis.ofSource source identifier subgraph now = .ok a) :
    a.metadata.schemaIdentifier = identifier := by
  obtain ⟨document, -, rfl⟩ := Document.exists_of_map_eq_ok h
  rfl

/-- The analysis of a schema is kept by every usable store. It comes back unchanged exactly if its
text is accepted and all of its numbers are finite; the others come back as null, and a text that is
not accepted does not come back. -/
theorem get_put_eq_ok_iff {id source : String} {subgraph : Option String} {now : Instant}
    {a : Analysis} (h : s.Usable t id) (hnow : now.Proper)
    (ha : Analysis.ofSource source id subgraph now = .ok a) :
    ∃ after, s.put t a = (after, .ok ()) ∧
      (s.get after id = .ok a ↔ Json.Storable a.toValue ∧ a.toValue.IsFinite) ∧
      (Json.Storable a.toValue → s.get after id = .ok a.finitePart) ∧
      (¬ Json.Storable a.toValue → s.get after id = answerOf (.refuse .jsonInvalid)) := by
  obtain rfl := schemaIdentifier_of_ofSource ha
  have hkeys := Analysis.keysDistinct_of_ofSource ha
  have htime : a.metadata.analyzedAt.Proper := by rwa [Analysis.analyzedAt_of_ofSource ha]
  obtain ⟨after, hput, hget⟩ := h.exists_get
  refine ⟨after, hput, ?_⟩
  rw [hget]
  exact ⟨reloaded_eq_ok_iff hkeys htime, reloaded_eq hkeys htime⟩

theorem usable_nearby (id : String) : nearby.Usable workFolder id where
  placed := wellPlaced_nearby
  folder := .inl absent_workFolder
  indexed := ⟨.empty, absent_workFolder.index_eq wellPlaced_nearby⟩
  unblocked := by
    have hnone : workFolder.node? (nearby.file (fileName id)) = none :=
      absent_workFolder.nothing _ (List.prefix_append _ _)
    rw [hnone]
    simp

/-- Numbers of every kind that come back. -/
theorem get_put_eq_ok_of_finite :
    let source := "type A @x(v: [-0.0, 5e-324, 1e22, 12345678901234567890, \x7bk: ENUM\x7d]) " ++
      "\x7b a: Int @y(s: \"\\uD83D\\uDE00\") \x7d"
    let now : Instant := ⟨2024, 1, 1, 0, 0, 0, 0, some 0⟩
    ∃ a after, Analysis.ofSource source "id" none now = .ok a ∧
      nearby.put workFolder a = (after, .ok ()) ∧ nearby.get after "id" = .ok a := by
  intro source now
  have hcheck : (Analysis.ofSource source "id" none now).toOption.any (fun a =>
      decide (Json.Storable a.toValue ∧ a.toValue.IsFinite)) = true := by decide +kernel
  obtain ⟨a, ha, hwhole⟩ := Document.exists_of_any_toOption hcheck
  obtain ⟨after, hput, hget, -⟩ :=
    get_put_eq_ok_iff (usable_nearby "id") (by decide : now.Proper) ha
  exact ⟨a, after, ha, hput, hget.mpr (of_decide_eq_true hwhole)⟩

/-- A number too large for the format of numbers does not come back. -/
theorem get_put_of_infinite :
    let now : Instant := ⟨2024, 1, 1, 0, 0, 0, 0, some 0⟩
    ∃ a after,
      Analysis.ofSource "type A @x(v: 1e999) \x7b a: Int \x7d" "id" (some "s") now = .ok a ∧
      nearby.Usable workFolder "id" ∧ nearby.put workFolder a = (after, .ok ()) ∧
        nearby.get after "id" ≠ .ok a := by
  intro now
  have hcheck : (Analysis.ofSource "type A @x(v: 1e999) \x7b a: Int \x7d" "id" (some "s")
      now).toOption.any (fun a => decide ¬ a.toValue.IsFinite) = true := by decide +kernel
  obtain ⟨a, ha, hinfinite⟩ := Document.exists_of_any_toOption hcheck
  have hkeys := Analysis.keysDistinct_of_ofSource ha
  have htime : a.metadata.analyzedAt.Proper := by
    rw [Analysis.analyzedAt_of_ofSource ha]
    decide
  have hid := schemaIdentifier_of_ofSource ha
  obtain ⟨after, hput, hget⟩ := (hid ▸ usable_nearby "id" :
    nearby.Usable workFolder a.metadata.schemaIdentifier).exists_get
  refine ⟨a, after, ha, usable_nearby "id", hput, fun h => of_decide_eq_true hinfinite ?_⟩
  rw [← hid, hget] at h
  exact ((reloaded_eq_ok_iff hkeys htime).mp h).2

end FederationGraph.Store
