import FederationGraph.Proofs.Files.Tree
import FederationGraph.Store.Basic

/-!
# The folder of a store

A store whose path leads to a place of its own finds that place empty, or as a
folder that every walk along the path arrives at. In both cases a file is held if
something stands under its name, the folder can be made without a loss, and the
folder can be removed. Writing a file needs the folder.
-/
namespace FederationGraph.Store

open FileTree

/-- A path leads to a place of its own if it says where to go in every part, starts outside of that
place and comes into it no deeper than to its top. -/
structure WellPlaced (s : Store) : Prop where
  parts : ∀ part ∈ s.path.parts, FilePath.isPart part = true
  names : Plain (s.path.start s.origin)
  outside : ¬ s.place <+: s.path.start s.origin
  apart : ∀ stop ∈ stops (s.path.start s.origin) s.path.parts, s.place <+: stop → stop = s.place

instance (s : Store) : Decidable s.WellPlaced :=
  decidable_of_iff _
    ⟨fun ⟨hparts, hnames, houtside, hapart⟩ => ⟨hparts, hnames, houtside, hapart⟩,
      fun h => (⟨h.parts, h.names, h.outside, h.apart⟩ : (_ ∧ _ ∧ _ ∧ _))⟩

/-- The folder of the store is not there, and nothing keeps it from being made. -/
structure Absent (s : Store) (t : FileTree) : Prop where
  start : t.Rooted (s.path.start s.origin)
  passable : ∀ stop ∈ stops (s.path.start s.origin) s.path.parts, ∀ contents,
    t.node? stop ≠ some (.file contents)
  nothing : ∀ location, s.place <+: location → t.node? location = none

/-- The folder of the store is there, at the end of its path. -/
def Present (s : Store) (t : FileTree) : Prop :=
  ∀ stop ∈ stops (s.path.start s.origin) s.path.parts, t.Rooted stop

variable {s : Store} {t : FileTree} {name : String}

theorem WellPlaced.place_eq (hs : s.WellPlaced) :
    s.place = s.path.parts.foldl step (s.path.start s.origin) :=
  resolve_eq hs.parts s.origin

theorem WellPlaced.plain_file (hs : s.WellPlaced) (hname : IsName name) : Plain (s.file name) := by
  have hplace : Plain s.place := hs.place_eq ▸ plain_foldl_step hs.names hs.parts
  intro n hn
  rcases List.mem_append.mp hn with hn | hn
  · exact hplace n hn
  · exact List.mem_singleton.mp hn ▸ hname

theorem WellPlaced.place_mem_stops (hs : s.WellPlaced) :
    s.place ∈ stops (s.path.start s.origin) s.path.parts :=
  hs.place_eq ▸ foldl_step_mem_stops _ _

/-- Nothing below the place of a store is on the way there. -/
theorem WellPlaced.not_file_prefix (hs : s.WellPlaced) {stop : Location}
    (hstop : stop ∈ stops (s.path.start s.origin) s.path.parts) (name : String) :
    ¬ s.file name <+: stop := by
  intro h
  obtain rfl : stop = s.place := hs.apart stop hstop ((List.prefix_append _ _).trans h)
  have hlength := h.length_le
  rw [file, List.length_append, List.length_singleton] at hlength
  omega

/-- A way that ended with the part to the folder above would come from below the place. -/
theorem WellPlaced.exists_last (hs : s.WellPlaced) :
    ∃ last, s.path.parts.getLast? = some last ∧ last ≠ parentPart := by
  rcases List.eq_nil_or_concat s.path.parts with hnil | ⟨front, last, hparts⟩
  · exact absurd (by rw [hs.place_eq, hnil]; exact List.prefix_rfl) hs.outside
  · refine ⟨last, by simp [hparts], ?_⟩
    rintro rfl
    have hplace : s.place = (front.foldl step (s.path.start s.origin)).dropLast := by
      rw [hs.place_eq, hparts, List.concat_eq_append, List.foldl_append, List.foldl_cons,
        List.foldl_nil, step_parent]
    have hfront : front.foldl step (s.path.start s.origin) = s.place := by
      refine hs.apart _ ?_ (hplace ▸ List.dropLast_prefix _)
      rw [hparts, List.concat_eq_append]
      exact stops_append _ _ _ _ (foldl_step_mem_stops _ _)
    -- only at the root does that part lead nowhere else
    have hroot : s.place = [] := by
      rw [hfront] at hplace
      have hlength := congrArg List.length hplace
      rw [List.length_dropLast] at hlength
      exact List.eq_nil_of_length_eq_zero (by omega)
    exact hs.outside (hroot ▸ List.nil_prefix)

theorem Present.rooted_place (hs : s.WellPlaced) (h : s.Present t) : t.Rooted s.place :=
  h _ hs.place_mem_stops

/-! ## Files under their names -/

theorem walk_file (hs : s.WellPlaced) (h : s.Present t) (hname : IsName name) :
    t.walk [] (s.file name) = .ok (s.file name) := by
  refine walk_plain (fun front hfront hne => ?_) (hs.plain_file hname)
  rcases List.prefix_concat_iff.mp hfront with rfl | hfront
  · exact absurd rfl hne
  · exact h.rooted_place hs front hfront

theorem leads_file (hs : s.WellPlaced) (h : s.Present t) (hname : IsName name) :
    t.walk (s.path.start s.origin) (s.path.parts ++ [name]) = .ok (s.file name) := by
  have hplace : t.node? s.place = some .folder := h.rooted_place hs _ List.prefix_rfl
  rw [walk_append, walk_of_rooted h, ← hs.place_eq]
  simp only [Except.bind, walk, hplace, step_part hname.1 hname.2, file]

/-- Whether the folder is there or not, the files that are held are those that stand there. -/
theorem holds_eq (hs : s.WellPlaced) (h : s.Absent t ∨ s.Present t) (hname : IsName name) :
    s.holds t name = (t.node? (s.file name)).isSome := by
  have hreach : t.reach s.origin (s.path.extend [name]) =
      (t.walk (s.path.start s.origin) (s.path.parts ++ [name])).bind t.nodeAt := rfl
  rw [holds, leads, hreach]
  rcases h with h | h
  · have hnone : t.node? (s.file name) = none := h.nothing _ (List.prefix_append _ _)
    cases hwalk : t.walk (s.path.start s.origin) (s.path.parts ++ [name]) with
    | error => simp [Except.bind, hnone]
    | ok l =>
      obtain rfl : l = s.file name := by
        rw [eq_foldl_step_of_walk hwalk, List.foldl_append, ← hs.place_eq, List.foldl_cons,
          List.foldl_nil, step_part hname.1 hname.2, file]
      simp [Except.bind, nodeAt, hnone]
  · rw [leads_file hs h hname]
    cases hnode : t.node? (s.file name) <;> simp [Except.bind, nodeAt, hnode]

theorem present_of_node (h : s.Absent t ∨ s.Present t) {node : Node}
    (hnode : t.node? (s.file name) = some node) : s.Present t := by
  refine h.resolve_left fun habsent => ?_
  rw [habsent.nothing (s.file name) (List.prefix_append _ _)] at hnode
  cases hnode

theorem read_of_node (hs : s.WellPlaced) (h : s.Absent t ∨ s.Present t) (hname : IsName name)
    {node : Node} (hnode : t.node? (s.file name) = some node) :
    s.read t name = (textOf node).mapError .file := by
  have hreach : t.reach [] (.ofLocation (s.file name)) =
      (t.walk [] (s.file name)).bind t.nodeAt := rfl
  rw [read, FileTree.read, hreach, walk_file hs (present_of_node h hnode) hname]
  simp only [Except.bind, nodeAt, hnode]

theorem read_eq (hs : s.WellPlaced) (h : s.Absent t ∨ s.Present t) (hname : IsName name)
    {text : String} (hnode : t.node? (s.file name) = some (.file (.text text))) :
    s.read t name = .ok (String.ofList (Text.unifyLineEnds text.toList)) :=
  read_of_node hs h hname hnode

/-! ## Changes -/

theorem write_eq (hs : s.WellPlaced) (h : s.Present t) (hname : IsName name)
    (hfolder : t.node? (s.file name) ≠ some .folder) (text : String) :
    s.write t name text = (t.put (s.file name) (.file (.text text)), .ok ()) := by
  have hwrite : t.write (s.file name) text = .ok (t.put (s.file name) (.file (.text text))) := by
    rw [FileTree.write, walk_file hs h hname]
    dsimp only
    split
    · exact absurd ‹_› hfolder
    · rfl
  rw [write, hwrite]

theorem node?_put_file (name other : String) (node : Node) :
    (t.put (s.file name) node).node? (s.file other) =
      if other = name then some node else t.node? (s.file other) := by
  rw [node?_put _ (by simp [file])]
  simp [file]

theorem Present.put (hs : s.WellPlaced) (h : s.Present t) (name : String) (node : Node) :
    s.Present (t.put (s.file name) node) := by
  intro stop hstop front hfront
  have hne : front ≠ s.file name := by
    rintro rfl
    exact hs.not_file_prefix hstop name hfront
  rw [node?_put _ (by simp [file]), if_neg hne]
  exact h stop hstop front hfront

/-- Making the folder touches no file of the store. -/
theorem exists_makeFolder (hs : s.WellPlaced) (h : s.Absent t ∨ s.Present t) :
    ∃ made, s.makeFolder t = .ok made ∧ s.Present made ∧
      ∀ name, made.node? (s.file name) = t.node? (s.file name) := by
  have hstart : t.Rooted (s.path.start s.origin) := by
    rcases h with h | h
    · exact h.start
    · exact h _ (here_mem_stops _ _)
  have hpassable : ∀ stop ∈ stops (s.path.start s.origin) s.path.parts, ∀ contents,
      t.node? stop ≠ some (.file contents) := by
    rcases h with h | h
    · exact h.passable
    · intro stop hstop contents
      simp [h stop hstop stop List.prefix_rfl]
  obtain ⟨made, hmade, hfolders, hsame⟩ := exists_makeFolders hstart hs.parts hpassable
  refine ⟨made, hmade, hfolders, fun name => (hsame (s.file name)).resolve_right ?_⟩
  rintro ⟨hstop, -⟩
  exact hs.not_file_prefix hstop name List.prefix_rfl

theorem clear_of_absent (hs : s.WellPlaced) (h : s.Absent t) : s.clear t = (t, .ok ()) := by
  have hreach : ∃ fault, t.reach s.origin s.path = .error fault := by
    rw [reach, locate]
    cases hwalk : t.walk (s.path.start s.origin) s.path.parts with
    | error fault => exact ⟨fault, rfl⟩
    | ok l =>
      have hplace : t.node? s.place = none := h.nothing _ List.prefix_rfl
      rw [eq_foldl_step_of_walk hwalk, ← hs.place_eq]
      exact ⟨.notFound, by simp [Except.bind, nodeAt, hplace]⟩
  obtain ⟨fault, hreach⟩ := hreach
  rw [clear, hreach]

theorem clear_of_present (hs : s.WellPlaced) (h : s.Present t) :
    s.clear t = (t.remove s.place, .ok ()) := by
  have hreach : t.reach s.origin s.path = .ok .folder := by
    have hplace : t.node? s.place = some .folder := h.rooted_place hs _ List.prefix_rfl
    rw [reach, locate, walk_of_rooted h, ← hs.place_eq]
    simp [Except.bind, nodeAt, hplace]
  obtain ⟨last, hlast, hparent⟩ := hs.exists_last
  rw [clear, hreach]
  simp only [hlast, if_neg hparent]

/-- Where a folder was removed it can be made again. -/
theorem Present.absent_remove (hs : s.WellPlaced) (h : s.Present t) :
    s.Absent (t.remove s.place) where
  start := by
    intro front hfront
    rw [node?_remove, if_neg fun ⟨_, hplace⟩ => hs.outside (hplace.trans hfront)]
    exact h _ (here_mem_stops _ _) front hfront
  passable := by
    intro stop hstop contents
    rw [node?_remove]
    split
    · simp
    · simp [h stop hstop stop List.prefix_rfl]
  nothing := by
    intro location hlocation
    have hne : location ≠ [] := by
      rintro rfl
      exact hs.outside (List.prefix_nil.mp hlocation ▸ List.nil_prefix)
    rw [node?_remove, if_pos ⟨hne, hlocation⟩]

/-- After clearing, the folder is not there. -/
theorem exists_clear (hs : s.WellPlaced) (h : s.Absent t ∨ s.Present t) :
    ∃ cleared, s.clear t = (cleared, .ok ()) ∧ s.Absent cleared := by
  rcases h with h | h
  · exact ⟨t, clear_of_absent hs h, h⟩
  · exact ⟨_, clear_of_present hs h, h.absent_remove hs⟩

end FederationGraph.Store
