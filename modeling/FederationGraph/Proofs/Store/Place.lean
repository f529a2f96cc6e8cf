import FederationGraph.Proofs.Store.Returning

/-!
# Stores at a place

Stores whose paths differ may lead to the same place. What they keep there is told
by the place alone: either nothing is there, or it is a folder in which a file
stands for every analysis that is kept. Keeping an analysis and clearing leave it
in such a state, whatever the index says, and so does everything that happens
elsewhere.
-/
namespace FederationGraph

open FileTree

/-- Nothing stands at a place or below it. -/
def FileTree.Vacant (t : FileTree) (place : Location) : Prop :=
  ∀ location, place <+: location → t.node? location = none

/-- A change of the files that leaves a place alone. A folder at the place is still arrived at. -/
structure FileTree.Spares (place : Location) (t changed : FileTree) : Prop where
  same : ∀ location, place <+: location → changed.node? location = t.node? location
  way : t.Rooted place → changed.Rooted place

namespace Store

/-- A store leads to a place if no file stands in its way, and if it arrives there once the place is
a folder. -/
structure LeadsTo (s : Store) (place : Location) (t : FileTree) : Prop where
  placed : s.WellPlaced
  place_eq : s.place = place
  start : t.Rooted (s.path.start s.origin)
  passable : ∀ stop ∈ stops (s.path.start s.origin) s.path.parts, ∀ contents,
    t.node? stop ≠ some (.file contents)
  arrives : t.Rooted place → s.Present t

/-- A place as stores leave it: nothing is there, or a folder with no folders in place of files. -/
structure Intact (place : Location) (t : FileTree) : Prop where
  folder : t.Vacant place ∨ t.Rooted place
  unblocked : ∀ id, t.node? (place ++ [fileName id]) ≠ some .folder

/-- The file for an identifier holds an analysis. -/
def Holds (place : Location) (t : FileTree) (id : String) (a : Analysis) : Prop :=
  t.node? (place ++ [fileName id]) = some (.file (.text a.storedText))

variable {s : Store} {place : Location} {t changed : FileTree} {id : String} {a : Analysis}

theorem intact_of_vacant (h : t.Vacant place) : Intact place t where
  folder := .inl h
  unblocked id := by simp [h _ (List.prefix_append place [fileName id])]

theorem LeadsTo.folder (hs : s.LeadsTo place t) (h : Intact place t) : s.Absent t ∨ s.Present t :=
  h.folder.imp (fun hvacant => ⟨hs.start, hs.passable, hs.place_eq ▸ hvacant⟩) hs.arrives

/-! ## What stays -/

theorem Intact.of_spares (h : Intact place t) (hc : Spares place t changed) :
    Intact place changed where
  folder := h.folder.imp (fun hvacant l hl => (hc.same l hl).trans (hvacant l hl)) hc.way
  unblocked id := by
    rw [hc.same _ (List.prefix_append _ _)]
    exact h.unblocked id

theorem Holds.of_spares (h : Holds place t id a) (hc : Spares place t changed) :
    Holds place changed id a :=
  (hc.same _ (List.prefix_append _ _)).trans h

/-- Putting something neither below a place nor on the way there leaves the place alone. -/
theorem spares_put {location : Location} (hbelow : ¬ place <+: location)
    (hway : ¬ location <+: place) (node : Node) : Spares place t (t.put location node) := by
  have hnil : location ≠ [] := by
    rintro rfl
    exact hway List.nil_prefix
  have hsame : ∀ l, l ≠ location → (t.put location node).node? l = t.node? l := by
    intro l hl
    rw [node?_put _ hnil, if_neg hl]
  constructor
  · rintro l hl
    exact hsame l fun h => hbelow (h ▸ hl)
  · intro hrooted front hfront
    rw [hsame front fun h => hway (h ▸ hfront)]
    exact hrooted front hfront

/-- Keeping an analysis makes the folder and writes one file of an analysis, and may fail only after
that. -/
theorem Intact.put_eq (hs : s.LeadsTo place t) (h : Intact place t) (a : Analysis) :
    (s.put t a).1.Rooted place ∧ ∀ id, (s.put t a).1.node? (place ++ [fileName id]) =
      if fileName id = fileName a.metadata.schemaIdentifier then
        some (.file (.text a.storedText))
      else t.node? (place ++ [fileName id]) := by
  have hfolder := hs.folder h
  obtain rfl := hs.place_eq
  obtain ⟨written, hput, hpresent, hnodes⟩ := exists_put hs.placed hfolder (h.unblocked _)
  obtain ⟨hafter, hkept⟩ := enter_keeps hs.placed hpresent a.metadata
  -- the index, which comes last, is none of these files
  rw [hput]
  refine ⟨hafter.rooted_place hs.placed, fun id => ?_⟩
  exact (hkept _ (fileName_ne_indexName id)).trans (hnodes _)

theorem Intact.put (hs : s.LeadsTo place t) (h : Intact place t) (a : Analysis) :
    Intact place (s.put t a).1 := by
  obtain ⟨hrooted, hnodes⟩ := h.put_eq hs a
  refine ⟨.inr hrooted, fun id => ?_⟩
  rw [hnodes]
  split
  · simp
  · exact h.unblocked id

theorem Intact.holds_put (hs : s.LeadsTo place t) (h : Intact place t) (a : Analysis) :
    Holds place (s.put t a).1 a.metadata.schemaIdentifier a := by
  rw [Holds, (h.put_eq hs a).2, if_pos rfl]

/-- The files of other analyses stay unless their names are the same. -/
theorem Holds.put (hs : s.LeadsTo place t) (hi : Intact place t) (h : Holds place t id a)
    {other : Analysis} (hne : fileName id ≠ fileName other.metadata.schemaIdentifier) :
    Holds place (s.put t other).1 id a := by
  rw [Holds, (hi.put_eq hs other).2, if_neg hne]
  exact h

theorem Intact.clear (hs : s.LeadsTo place t) (h : Intact place t) :
    Intact place (s.clear t).1 := by
  obtain ⟨cleared, hclear, habsent⟩ := exists_clear hs.placed (hs.folder h)
  rw [hclear]
  exact intact_of_vacant (hs.place_eq ▸ habsent.nothing)

/-! ## What a store answers -/

theorem has_of_vacant (hs : s.LeadsTo place t) (h : t.Vacant place) (id : String) :
    s.has t id = false := by
  obtain rfl := hs.place_eq
  have hnone : t.node? (s.file (fileName id)) = none := h _ (List.prefix_append _ _)
  rw [Store.has, holds_eq hs.placed (hs.folder (intact_of_vacant h)) (isName_fileName id), hnone]
  rfl

theorem Holds.rooted (hi : Intact place t) (h : Holds place t id a) :
    t.Rooted place := by
  refine hi.folder.resolve_left fun hvacant => ?_
  rw [Holds, hvacant _ (List.prefix_append _ _)] at h
  cases h

theorem Holds.has (hs : s.LeadsTo place t) (hi : Intact place t) (h : Holds place t id a) :
    s.has t id = true := by
  obtain rfl := hs.place_eq
  have hnode : t.node? (s.file (fileName id)) = some (.file (.text a.storedText)) := h
  rw [Store.has, holds_eq hs.placed (hs.folder hi) (isName_fileName id), hnode]
  rfl

theorem Holds.get (hs : s.LeadsTo place t) (hi : Intact place t) (h : Holds place t id a) :
    s.get t id = reloaded a := by
  obtain rfl := hs.place_eq
  exact get_of_node hs.placed (hs.folder hi) h

end Store

end FederationGraph
