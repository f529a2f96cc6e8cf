import FederationGraph.Proofs.Files.Tree
import Mathlib.Data.List.Nodup

/-!
# What stands below a folder

A listing of nodes is that of a tree if it names no location twice and every node
stands in a folder. In a tree what is listed at a location is what a lookup finds
there, a folder is reached from the root, and a path that leads to a folder leads on
to whatever stands below it.
-/
namespace FederationGraph

namespace FileTree

/-- Whether the nodes make up a tree of folders and files. -/
structure IsTree (t : FileTree) : Prop where
  distinct : (t.nodes.map Prod.fst).Nodup
  named : ∀ entry ∈ t.nodes, entry.1 ≠ [] ∧ Plain entry.1
  rooted : ∀ entry ∈ t.nodes, t.Rooted entry.1.dropLast

theorem lookup_eq_some_iff_mem {α β : Type} [BEq α] [LawfulBEq α] {entries : List (α × β)}
    (hd : (entries.map Prod.fst).Nodup) {key : α} {value : β} :
    entries.lookup key = some value ↔ (key, value) ∈ entries := by
  rw [List.lookup_eq_some_iff]
  constructor
  · rintro ⟨front, behind, rfl, -⟩
    simp
  · intro hmem
    obtain ⟨front, behind, rfl⟩ := List.append_of_mem hmem
    refine ⟨front, behind, rfl, fun entry he => ?_⟩
    rw [List.map_append, List.map_cons, List.nodup_append] at hd
    have hne : entry.1 ≠ key :=
      hd.2.2 _ (List.mem_map_of_mem he) _ List.mem_cons_self
    simpa using Ne.symm hne

section

variable {t : FileTree} {location : Location} {node : Node}

theorem IsTree.mem_nodes_iff (ht : t.IsTree) :
    (location, node) ∈ t.nodes ↔ location ≠ [] ∧ t.node? location = some node := by
  have hlookup : t.nodes.lookup location = some node ↔ (location, node) ∈ t.nodes :=
    lookup_eq_some_iff_mem ht.distinct
  constructor
  · intro hmem
    have hne := (ht.named _ hmem).1
    rw [node?, if_neg (by simpa using hne), hlookup]
    exact ⟨hne, hmem⟩
  · rintro ⟨hne, hnode⟩
    rwa [node?, if_neg (by simpa using hne), hlookup] at hnode

theorem IsTree.plain (ht : t.IsTree) (h : t.node? location = some node) : Plain location := by
  by_cases hne : location = []
  · rw [hne]
    exact fun _ hn => absurd hn List.not_mem_nil
  · exact (ht.named _ (ht.mem_nodes_iff.mpr ⟨hne, h⟩)).2

/-- Every location on the way to a node is a folder. -/
theorem IsTree.folder_of_prefix (ht : t.IsTree) (h : t.node? location = some node)
    {front : Location} (hp : front <+: location) (hne : front ≠ location) :
    t.node? front = some .folder := by
  have hnil : location ≠ [] := by
    rintro rfl
    exact hne (List.prefix_nil.mp hp)
  have hroot := ht.rooted _ (ht.mem_nodes_iff.mpr ⟨hnil, h⟩)
  rw [← List.dropLast_concat_getLast hnil] at hp hne
  exact hroot front ((List.prefix_concat_iff.mp hp).resolve_left hne)

/-- A walk from a location along names arrives at what stands there. -/
theorem IsTree.walk_of_node (ht : t.IsTree) {names : List String}
    (h : t.node? (location ++ names) = some node) :
    t.walk location names = .ok (location ++ names) :=
  walk_plain (fun _ hp hne => ht.folder_of_prefix h hp hne)
    fun name hn => ht.plain h name (List.mem_append_right _ hn)

/-- A file is read as what it holds. -/
theorem IsTree.read_of_node (ht : t.IsTree) (h : t.node? location = some node) :
    t.read location = textOf node := by
  have hwalk : t.walk [] location = .ok ([] ++ location) := ht.walk_of_node h
  have hreach : t.reach [] (.ofLocation location) = .ok node := by
    rw [reach, locate]
    change (t.walk [] location).bind t.nodeAt = _
    rw [hwalk, List.nil_append, Except.bind, nodeAt, h]
  rw [read, hreach, Except.bind]

/-! ## Trees that are made -/

theorem isTree_empty : empty.IsTree where
  distinct := List.nodup_nil
  named _ he := absurd he List.not_mem_nil
  rooted _ he := absurd he List.not_mem_nil

/-- A node may be put into any folder, unless it is a file in place of a folder. -/
theorem IsTree.put (ht : t.IsTree) (hne : location ≠ []) (hp : Plain location)
    (hroot : t.Rooted location.dropLast)
    (hkind : t.node? location = some .folder → node = .folder) :
    (t.put location node).IsTree := by
  have hstays : ∀ l, t.Rooted l → (t.put location node).Rooted l := by
    intro l hl front hf
    rw [node?_put t hne]
    split
    · rename_i he
      rw [hkind (he ▸ hl front hf)]
    · exact hl front hf
  have hmem : ∀ entry ∈ (t.put location node).nodes,
      entry ∈ t.nodes ∧ entry.1 ≠ location ∨ entry = (location, node) := by
    intro entry he
    rcases List.mem_append.mp he with he | he
    · obtain ⟨hmem, hother⟩ := List.mem_filter.mp he
      exact .inl ⟨hmem, by simpa using hother⟩
    · exact .inr (List.mem_singleton.mp he)
  refine ⟨?_, fun entry he => ?_, fun entry he => ?_⟩
  · have hkept := ht.distinct.sublist ((List.filter_sublist (l := t.nodes)
      (p := fun entry => entry.1 != location)).map Prod.fst)
    rw [FileTree.put, List.map_append, List.map_singleton]
    refine List.nodup_append.mpr ⟨hkept, List.nodup_singleton _, ?_⟩
    intro l hl other hother
    obtain ⟨entry, he, rfl⟩ := List.mem_map.mp hl
    rw [List.mem_singleton.mp hother]
    simpa using (List.mem_filter.mp he).2
  · rcases hmem entry he with ⟨hmem, -⟩ | rfl
    · exact ht.named entry hmem
    · exact ⟨hne, hp⟩
  · rcases hmem entry he with ⟨hmem, -⟩ | rfl
    · exact hstays _ (ht.rooted entry hmem)
    · exact hstays _ hroot

/-! ## The nodes below a folder -/

theorem below_entry_iff {place names : Location} {other : Node} :
    (if location.isPrefixOf place && place.length != location.length then
        some (place.drop location.length, node) else none) = some (names, other) ↔
      place = location ++ names ∧ names ≠ [] ∧ node = other := by
  constructor
  · intro h
    split at h
    · rename_i hbelow
      cases h
      rw [Bool.and_eq_true, List.isPrefixOf_iff_prefix] at hbelow
      obtain ⟨⟨names, rfl⟩, hlength⟩ := hbelow
      rw [List.drop_left]
      refine ⟨rfl, ?_, rfl⟩
      rintro rfl
      simp at hlength
    · cases h
  · rintro ⟨rfl, hne, rfl⟩
    have hunder : location.isPrefixOf (location ++ names) = true :=
      List.isPrefixOf_iff_prefix.mpr (List.prefix_append _ _)
    simp [hunder, hne]

theorem IsTree.mem_below_iff (ht : t.IsTree) {names : List String} :
    (names, node) ∈ t.below location ↔ names ≠ [] ∧ t.node? (location ++ names) = some node := by
  rw [below, List.mem_filterMap]
  constructor
  · rintro ⟨⟨place, other⟩, hmem, hsome⟩
    obtain ⟨rfl, hne, rfl⟩ := below_entry_iff.mp hsome
    exact ⟨hne, (ht.mem_nodes_iff.mp hmem).2⟩
  · rintro ⟨hne, hnode⟩
    have hmem := ht.mem_nodes_iff.mpr ⟨by simp [hne], hnode⟩
    exact ⟨_, hmem, below_entry_iff.mpr ⟨rfl, hne, rfl⟩⟩

theorem IsTree.nodup_below (ht : t.IsTree) : ((t.below location).map Prod.fst).Nodup := by
  have hnodes : t.nodes.Pairwise fun a b => a.1 ≠ b.1 := List.pairwise_map.mp ht.distinct
  refine List.pairwise_map.mpr (hnodes.filterMap _ ?_)
  rintro ⟨place, _⟩ ⟨place', _⟩ hne ⟨names, _⟩ hnames ⟨names', _⟩ hnames' rfl
  obtain ⟨rfl, -, -⟩ := below_entry_iff.mp hnames
  obtain ⟨rfl, -, -⟩ := below_entry_iff.mp hnames'
  exact hne rfl

/-! ## Paths to what stands below a folder -/

/-- `t.LeadsInto folder path place`: from the folder the path leads to a folder at the place. -/
structure LeadsInto (t : FileTree) (folder : Location) (path : FilePath) (place : Location) :
    Prop where
  parts : ∀ part ∈ path.parts, FilePath.isPart part = true
  locate : t.locate folder path = .ok place
  isFolder : t.node? place = some .folder

variable {folder place : Location} {path : FilePath} {names : List String}

theorem LeadsInto.reach_extend (h : t.LeadsInto folder path place) (ht : t.IsTree)
    (hnode : t.node? (place ++ names) = some node) :
    t.reach folder (path.extend names) = .ok node := by
  have hlocate : t.locate folder (path.extend names) = .ok (place ++ names) := by
    have hwalk : t.walk (path.start folder) path.parts = .ok place := h.locate
    change t.walk (path.start folder) (path.parts ++ names) = _
    rw [walk_append, hwalk]
    exact ht.walk_of_node hnode
  rw [reach, hlocate, Except.bind, nodeAt, hnode]

theorem LeadsInto.resolve_extend (h : t.LeadsInto folder path place) (ht : t.IsTree)
    (hnode : t.node? (place ++ names) = some node) :
    (path.extend names).resolve folder = place ++ names := by
  have hnames : ∀ part ∈ names, FilePath.isPart part = true :=
    fun name hn => (ht.plain hnode name (List.mem_append_right _ hn)).1
  have hparts : ∀ part ∈ (path.extend names).parts, FilePath.isPart part = true := by
    intro part hpart
    rcases List.mem_append.mp hpart with hp | hn
    · exact h.parts part hp
    · exact hnames part hn
  have hplace : place = path.parts.foldl step (path.start folder) :=
    eq_foldl_step_of_walk h.locate
  rw [resolve_eq hparts]
  change (path.parts ++ names).foldl step (path.start folder) = _
  rw [List.foldl_append, ← hplace]
  exact (eq_foldl_step_of_walk (ht.walk_of_node hnode)).symm

end

end FileTree

end FederationGraph
