import FederationGraph.Schema.Source
import FederationGraph.Proofs.Files.Below
import Mathlib.Data.List.Forall2
import Mathlib.Data.List.Perm.Basic

/-!
# The files of a schema folder

A schema folder is meant to contribute every schema file below it once, in the order
of their paths. What is listed are the entries with a schema name, and a folder may
have such a name as well: it is listed like a file, and its own text repeats the
files below it. So the listing and the source are those of the files just if no
folder below has a schema name.
-/
namespace FederationGraph

/-! ## The order of locations -/

theorem Location.before_cons_cons {x y : String} {xs ys : Location} :
    before (x :: xs) (y :: ys) = true ↔ x < y ∨ x = y ∧ xs.before ys = true := by
  rw [before]
  by_cases h : x = y
  · rw [if_pos h]
    have hlt : ¬ x < y := h ▸ String.lt_irrefl x
    exact ⟨fun hxs => .inr ⟨h, hxs⟩, fun hxs => (hxs.resolve_left hlt).2⟩
  · rw [if_neg h, decide_eq_true_eq]
    exact ⟨.inl, fun hxs => hxs.resolve_right fun he => h he.1⟩

theorem Location.before_trans {a b c : Location} (hab : a.before b = true)
    (hbc : b.before c = true) : a.before c = true := by
  induction a generalizing b c with
  | nil => rfl
  | cons x xs ih =>
    cases b with
    | nil => cases hab
    | cons y ys =>
      cases c with
      | nil => cases hbc
      | cons z zs =>
        rw [before_cons_cons] at hab hbc ⊢
        rcases hab with hxy | ⟨rfl, hxs⟩
        · rcases hbc with hyz | ⟨rfl, -⟩
          · exact .inl (String.lt_trans hxy hyz)
          · exact .inl hxy
        · rcases hbc with hyz | ⟨rfl, hys⟩
          · exact .inl hyz
          · exact .inr ⟨rfl, ih hxs hys⟩

theorem Location.before_total (a b : Location) : (a.before b || b.before a) = true := by
  induction a generalizing b with
  | nil => rfl
  | cons x xs ih =>
    cases b with
    | nil => rfl
    | cons y ys =>
      rw [Bool.or_eq_true, before_cons_cons, before_cons_cons]
      by_cases hxy : x = y
      · have hrest := ih ys
        rw [Bool.or_eq_true] at hrest
        exact hrest.imp (fun h => .inr ⟨hxy, h⟩) fun h => .inr ⟨hxy.symm, h⟩
      · rcases String.le_total x y with h | h
        · exact .inl (.inl (Std.lt_of_le_of_ne h hxy))
        · exact .inr (.inl (Std.lt_of_le_of_ne h (Ne.symm hxy)))

/-- Distinct locations in order. -/
theorem Location.ordered_mergeSort {locations : List Location} (h : locations.Nodup) :
    (locations.mergeSort before).Pairwise fun a b => a.before b = true ∧ a ≠ b := by
  have htrans : ∀ a b c : Location, a.before b = true → b.before c = true → a.before c = true :=
    fun _ _ _ => before_trans
  have hsorted := List.pairwise_mergeSort htrans before_total locations
  have hnodup := (List.mergeSort_perm locations before).nodup_iff.mpr h
  exact hsorted.and hnodup

namespace Schema

open FileTree

/-! ## Listings -/

/-- Whether a location ends in the name of a schema file. -/
def isSchemaLocation (names : Location) : Bool := names.getLast?.any isSchemaName

/-- What stands below a folder under the name of a schema file. -/
def schemaNodes (t : FileTree) (place : Location) : List (Location × Node) :=
  (t.below place).filter fun entry => isSchemaLocation entry.1

/-- The schema files below a folder, from there, in the order of their locations. -/
def schemaFiles (t : FileTree) (place : Location) : List Location :=
  (((schemaNodes t place).filter fun entry => !entry.2.isFolder).map Prod.fst).mergeSort
    Location.before

/-- The folders below a folder that have the name of a schema file. -/
def schemaFolders (t : FileTree) (place : Location) : List Location :=
  ((schemaNodes t place).filter fun entry => entry.2.isFolder).map Prod.fst

/-- Whether no folder below a place has the name of a schema file. -/
def NoSchemaFolder (t : FileTree) (place : Location) : Prop :=
  ∀ names, isSchemaLocation names = true → t.node? (place ++ names) ≠ some .folder

/-- `Lists t place files`: the files are those below the place that have the name of a schema file,
each once and in order. -/
structure Lists (t : FileTree) (place : Location) (files : List Location) : Prop where
  mem_iff : ∀ names, names ∈ files ↔ isSchemaLocation names = true ∧
    ∃ contents, t.node? (place ++ names) = some (.file contents)
  ordered : files.Pairwise fun a b => a.before b = true ∧ a ≠ b

section

variable {t : FileTree} {place folder : Location} {path : FilePath} {names : Location}

theorem mem_schemaNodes_iff (ht : t.IsTree) {node : Node} :
    (names, node) ∈ schemaNodes t place ↔
      isSchemaLocation names = true ∧ t.node? (place ++ names) = some node := by
  have hne : isSchemaLocation names = true → names ≠ [] := by
    rintro h rfl
    cases h
  rw [schemaNodes, List.mem_filter, ht.mem_below_iff]
  constructor
  · rintro ⟨⟨-, hnode⟩, hname⟩
    exact ⟨hname, hnode⟩
  · rintro ⟨hname, hnode⟩
    exact ⟨⟨hne hname, hnode⟩, hname⟩

theorem nodup_schemaNodes (ht : t.IsTree) : ((schemaNodes t place).map Prod.fst).Nodup :=
  ht.nodup_below.sublist (List.filter_sublist.map _)

theorem lists_schemaFiles (ht : t.IsTree) : Lists t place (schemaFiles t place) where
  mem_iff names := by
    rw [schemaFiles, List.mem_mergeSort, List.mem_map]
    constructor
    · rintro ⟨⟨names, node⟩, hmem, rfl⟩
      obtain ⟨hnode, hfile⟩ := List.mem_filter.mp hmem
      obtain ⟨hname, hnode⟩ := (mem_schemaNodes_iff ht).mp hnode
      cases node with
      | folder => cases hfile
      | file contents => exact ⟨hname, contents, hnode⟩
    · rintro ⟨hname, contents, hnode⟩
      have hmem := (mem_schemaNodes_iff ht).mpr ⟨hname, hnode⟩
      exact ⟨_, List.mem_filter.mpr ⟨hmem, rfl⟩, rfl⟩
  ordered :=
    Location.ordered_mergeSort ((nodup_schemaNodes ht).sublist (List.filter_sublist.map _))

theorem schemaFolders_eq_nil_iff (ht : t.IsTree) :
    schemaFolders t place = [] ↔ NoSchemaFolder t place := by
  rw [schemaFolders, List.map_eq_nil_iff, List.filter_eq_nil_iff]
  constructor
  · intro h names hname hnode
    exact h _ ((mem_schemaNodes_iff ht).mpr ⟨hname, hnode⟩) rfl
  · rintro h ⟨names, node⟩ hmem hfolder
    obtain ⟨hname, hnode⟩ := (mem_schemaNodes_iff ht).mp hmem
    cases node with
    | folder => exact h names hname hnode
    | file contents => cases hfolder

/-! ## Entries -/

theorem entriesBelow_eq (t : FileTree) (place : Location) :
    entriesBelow t place = ((schemaNodes t place).map Prod.fst).mergeSort Location.before := by
  rw [entriesBelow, List.filter_map]
  rfl

/-- The entries of a folder are the schema files below it and the folders with such a name. -/
theorem entriesBelow_perm (t : FileTree) (place : Location) :
    (entriesBelow t place).Perm (schemaFolders t place ++ schemaFiles t place) := by
  have hsplit := (List.filter_append_perm (fun entry => entry.2.isFolder) (schemaNodes t place)).map
    Prod.fst
  rw [List.map_append] at hsplit
  have hfiles := List.mergeSort_perm (((schemaNodes t place).filter fun entry =>
    !entry.2.isFolder).map Prod.fst) Location.before
  rw [entriesBelow_eq]
  exact ((List.mergeSort_perm _ _).trans hsplit.symm).trans (hfiles.symm.append_left _)

theorem entriesBelow_eq_iff (ht : t.IsTree) :
    entriesBelow t place = schemaFiles t place ↔ NoSchemaFolder t place := by
  rw [← schemaFolders_eq_nil_iff ht]
  constructor
  · intro h
    have hlength := (entriesBelow_perm t place).length_eq
    rw [h, List.length_append] at hlength
    exact List.length_eq_zero_iff.mp (by omega)
  · intro h
    have hfiles : (schemaNodes t place).filter (fun entry => !entry.2.isFolder) =
        schemaNodes t place := by
      rw [schemaFolders, List.map_eq_nil_iff, List.filter_eq_nil_iff] at h
      exact List.filter_eq_self.mpr fun entry he => by simpa using h entry he
    rw [entriesBelow_eq, schemaFiles, hfiles]

theorem entries_of_leadsInto (h : t.LeadsInto folder path place) :
    entries t folder path = (entriesBelow t place).map path.extend := by
  rw [entries, h.locate, Except.bind, nodeAt, h.isFolder, Except.map]

theorem extend_injective (path : FilePath) : Function.Injective path.extend := by
  intro names other h
  exact List.append_cancel_left (FilePath.mk.inj h).2

/-! ## Texts -/

theorem mapM_eq_ok_iff {ε α β : Type} {f : α → Except ε β} {xs : List α} {ys : List β} :
    xs.mapM f = .ok ys ↔ List.Forall₂ (fun x y => f x = .ok y) xs ys := by
  induction xs generalizing ys with
  | nil =>
    rw [List.mapM_nil, List.forall₂_nil_left_iff]
    exact ⟨fun h => (Except.ok.inj h).symm, fun h => h ▸ rfl⟩
  | cons x xs ih =>
    rw [List.mapM_cons, List.forall₂_cons_left_iff]
    constructor
    · intro h
      cases hx : f x with
      | error fault =>
        rw [hx] at h
        cases h
      | ok y =>
        cases hxs : xs.mapM f with
        | error fault =>
          rw [hx, hxs] at h
          cases h
        | ok others =>
          rw [hx, hxs] at h
          exact ⟨y, others, rfl, ih.mp hxs, (Except.ok.inj h).symm⟩
    · rintro ⟨y, others, hx, hxs, rfl⟩
      rw [hx, ih.mpr hxs]
      rfl

/-- What is related to a list of two parts has two parts. -/
theorem exists_of_forall₂_append {α β : Type} {r : α → β → Prop} {front behind : List α}
    {ys : List β} (h : List.Forall₂ r (front ++ behind) ys) :
    ∃ us vs, ys = us ++ vs ∧ List.Forall₂ r front us ∧ List.Forall₂ r behind vs := by
  induction front generalizing ys with
  | nil => exact ⟨[], ys, rfl, .nil, h⟩
  | cons x front ih =>
    obtain ⟨y, others, hx, hothers, rfl⟩ := List.forall₂_cons_left_iff.mp h
    obtain ⟨us, vs, rfl, hus, hvs⟩ := ih hothers
    exact ⟨y :: us, vs, rfl, .cons hx hus, hvs⟩

theorem toList_concatenated (texts : List String) :
    (concatenated texts).toList = texts.flatMap fun text => text.toList ++ ['\n'] := by
  rw [concatenated, String.toList_join, List.flatMap_map]
  exact List.flatMap_congr fun text _ => String.toList_append

/-- Every text adds its line end at least. -/
theorem length_le_length_concatenated (texts : List String) :
    texts.length ≤ (concatenated texts).length := by
  rw [← String.length_toList, toList_concatenated]
  induction texts with
  | nil => exact Nat.zero_le _
  | cons text texts ih =>
    rw [List.flatMap_cons, List.length_append, List.length_append, List.length_singleton,
      List.length_cons]
    omega

theorem read_of_readFile {entry : FilePath} {file : Location} {text : String}
    (h : readFile t entry file = .ok text) : t.read file = .ok text := by
  rw [readFile] at h
  split at h
  · cases h
  · rename_i read hread
    split at h
    · cases h
    · cases h
      exact hread

/-- An entry that is a file is read as that file. -/
theorem entryText_of_file (ht : t.IsTree) (h : t.LeadsInto folder path place)
    (hfile : names ∈ schemaFiles t place) :
    entryText t folder (path.extend names) = readFile t (path.extend names) (place ++ names) := by
  obtain ⟨-, contents, hnode⟩ := ((lists_schemaFiles ht).mem_iff names).mp hfile
  have hleads : t.leadsToFolder folder (path.extend names) = false := by
    rw [leadsToFolder, h.reach_extend ht hnode]
    rfl
  rw [entryText, hleads, if_neg (by decide), h.resolve_extend ht hnode]

theorem mapM_read_of_entryTexts (ht : t.IsTree) (h : t.LeadsInto folder path place)
    {texts : List String} (htexts : List.Forall₂ (fun names text =>
      entryText t folder (path.extend names) = .ok text) (schemaFiles t place) texts) :
    (schemaFiles t place).mapM (fun names => t.read (place ++ names)) = .ok texts := by
  have hmem := (List.forall₂_and_left _ _).mpr ⟨fun names hn => hn, htexts⟩
  refine mapM_eq_ok_iff.mpr (hmem.imp fun names text hn => ?_)
  have htext := hn.2
  rw [entryText_of_file ht h hn.1] at htext
  exact read_of_readFile htext

/-- A source is made of the texts of the entries. -/
theorem exists_texts_of_source (h : t.LeadsInto folder path place) {text : String}
    (hs : source t folder path = .ok text) :
    ∃ texts, text = concatenated texts ∧
      List.Forall₂ (fun names text => entryText t folder (path.extend names) = .ok text)
        (entriesBelow t place) texts := by
  rw [source, entries_of_leadsInto h] at hs
  split at hs
  · cases hs
  · cases hm : ((entriesBelow t place).map path.extend).mapM (entryText t folder) with
    | error fault =>
      rw [hm] at hs
      cases hs
    | ok texts =>
      rw [hm] at hs
      cases hs
      exact ⟨texts, rfl, List.forall₂_map_left_iff.mp (mapM_eq_ok_iff.mp hm)⟩

/-- A source that was read holds the texts of all schema files, and a line end at least for every
folder with the name of one. -/
theorem exists_fileTexts_of_source (ht : t.IsTree) (h : t.LeadsInto folder path place)
    {text : String} (hs : source t folder path = .ok text) :
    ∃ texts, (schemaFiles t place).mapM (fun names => t.read (place ++ names)) = .ok texts ∧
      (concatenated texts).length + (schemaFolders t place).length ≤ text.length := by
  obtain ⟨texts, rfl, htexts⟩ := exists_texts_of_source h hs
  -- the entries are rearranged into folders and files, and their texts along with them
  obtain ⟨rearranged, hparts, hperm⟩ :=
    List.perm_comp_forall₂ (entriesBelow_perm t place).symm htexts
  obtain ⟨folderTexts, fileTexts, rfl, hfolders, hfiles⟩ := exists_of_forall₂_append hparts
  refine ⟨fileTexts, mapM_read_of_entryTexts ht h hfiles, ?_⟩
  have hlength := (hperm.flatMap_right fun text => text.toList ++ ['\n']).length_eq
  rw [List.flatMap_append, List.length_append, ← toList_concatenated, ← toList_concatenated,
    ← toList_concatenated, String.length_toList, String.length_toList,
    String.length_toList] at hlength
  have hlines := length_le_length_concatenated folderTexts
  rw [hfolders.length_eq]
  omega

/-- What a path into a folder contributes are the schema files below the folder, each once and in
order: it lists them, and its source is their texts, just if no folder below has the name of a
schema file. -/
theorem lists_and_source_iff (ht : t.IsTree) (h : t.LeadsInto folder path place) :
    Lists t place (schemaFiles t place) ∧
      (entries t folder path = (schemaFiles t place).map path.extend ↔ NoSchemaFolder t place) ∧
      ∀ text, source t folder path = .ok text →
        ((∃ texts, (schemaFiles t place).mapM (fun names => t.read (place ++ names)) = .ok texts ∧
          text = concatenated texts) ↔ NoSchemaFolder t place) := by
  refine ⟨lists_schemaFiles ht, ?_, fun text hs => ?_⟩
  · rw [entries_of_leadsInto h, (extend_injective path).list_map.eq_iff, entriesBelow_eq_iff ht]
  constructor
  · rintro ⟨texts, hread, rfl⟩
    obtain ⟨others, hothers, hlength⟩ := exists_fileTexts_of_source ht h hs
    cases hread.symm.trans hothers
    exact (schemaFolders_eq_nil_iff ht).mp (List.length_eq_zero_iff.mp (by omega))
  · intro hnone
    obtain ⟨texts, rfl, htexts⟩ := exists_texts_of_source h hs
    rw [(entriesBelow_eq_iff ht).mpr hnone] at htexts
    exact ⟨texts, mapM_read_of_entryTexts ht h htexts, rfl⟩

end

/-! ## Two trees -/

/-- The path to the folder it is followed from. -/
def here : FilePath := ⟨.relative, []⟩

/-- A tree in which no folder has the name of a schema file. -/
def flat : FileTree :=
  ((FileTree.empty.put ["a.graphql"] (.file (.text "type A"))).put ["sub"] .folder).put
    ["sub", "b.gql"] (.file (.text "type B"))

theorem isTree_flat : flat.IsTree := by
  have hfile : (FileTree.empty.put ["a.graphql"] (.file (.text "type A"))).IsTree :=
    isTree_empty.put (by decide) (by decide) (rooted_nil _) nofun
  have hsub : ((FileTree.empty.put ["a.graphql"] (.file (.text "type A"))).put
      ["sub"] .folder).IsTree := hfile.put (by decide) (by decide) (rooted_nil _) fun _ => rfl
  exact hsub.put (by decide) (by decide) ((rooted_nil _).append rfl) nofun

theorem lists_and_source_flat :
    flat.IsTree ∧ flat.LeadsInto [] here [] ∧
      entries flat [] here = [⟨.relative, ["a.graphql"]⟩, ⟨.relative, ["sub", "b.gql"]⟩] ∧
      ∃ texts, (schemaFiles flat []).mapM (fun names => flat.read ([] ++ names)) = .ok texts ∧
        "type A\ntype B\n" = concatenated texts := by
  have hleads : flat.LeadsInto [] here [] := ⟨nofun, rfl, rfl⟩
  have hfolders : schemaFolders flat [] = [] := by decide +kernel
  have hnone := (schemaFolders_eq_nil_iff isTree_flat).mp hfolders
  have hfiles : schemaFiles flat [] = [["a.graphql"], ["sub", "b.gql"]] :=
    List.mergeSort_of_pairwise (by decide +kernel)
  obtain ⟨-, hlisted, hread⟩ := lists_and_source_iff isTree_flat hleads
  have hentries := hlisted.mpr hnone
  rw [hfiles] at hentries
  have hsource : (source flat [] here).toOption = some "type A\ntype B\n" := by
    rw [source, hentries]
    decide +kernel
  have hok : source flat [] here = .ok "type A\ntype B\n" := by
    cases hs : source flat [] here with
    | error fault =>
      rw [hs] at hsource
      cases hsource
    | ok text =>
      rw [hs] at hsource
      exact congrArg Except.ok (Option.some.inj hsource)
  exact ⟨isTree_flat, hleads, hentries, (hread _ hok).mpr hnone⟩

/-- A tree with a folder named like a schema file. -/
def nested : FileTree :=
  ⟨[(["d.graphql"], .folder), (["d.graphql", "a.graphql"], .file (.text "type A"))]⟩

/-- The only file below is read twice, once for itself and once for its folder. -/
theorem source_nested :
    schemaFiles nested [] = [["d.graphql", "a.graphql"]] ∧
      entries nested [] here =
        [⟨.relative, ["d.graphql"]⟩, ⟨.relative, ["d.graphql", "a.graphql"]⟩] ∧
      (source nested [] here).toOption = some "type A\ntype A\n" := by
  have hsorted : entriesBelow nested [] = [["d.graphql"], ["d.graphql", "a.graphql"]] := by
    rw [entriesBelow_eq]
    exact List.mergeSort_of_pairwise (by decide +kernel)
  have hleads : nested.LeadsInto [] here [] := ⟨nofun, rfl, rfl⟩
  have hentries : entries nested [] here =
      [⟨.relative, ["d.graphql"]⟩, ⟨.relative, ["d.graphql", "a.graphql"]⟩] := by
    rw [entries_of_leadsInto hleads, hsorted]
    rfl
  refine ⟨by decide +kernel, hentries, ?_⟩
  rw [source, hentries]
  decide +kernel

end Schema

end FederationGraph
