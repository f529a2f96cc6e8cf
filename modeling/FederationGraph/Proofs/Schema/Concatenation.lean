import FederationGraph.Proofs.Document.Texts
import FederationGraph.Proofs.Schema.Listing

/-!
# Schema files checked one by one

Every file of a schema folder has to be a document of its own, and then their texts are read
together. Checking the files one by one is enough just if they are parted: where a file ends
with a definition that leaves out its body and the next begins with a brace, the brace is taken
for the body. Then the whole is read as something else than the files in a row, or not at all,
with a fault that names no file.
-/
namespace FederationGraph

open FileTree

namespace Schema

variable {t : FileTree} {place folder : Location} {path : FilePath}

/-- The path of a place leads into what is there. -/
theorem leadsInto_ofLocation (ht : t.IsTree) (h : t.node? place = some .folder)
    (folder : Location) : t.LeadsInto folder (.ofLocation place) place where
  parts part hpart := (ht.plain h part hpart).1
  locate := by
    have hplace : t.node? ([] ++ place) = some .folder := h
    exact ht.walk_of_node hplace
  isFolder := h

theorem resolve_of_leadsInto (ht : t.IsTree) (h : t.LeadsInto folder path place) :
    path.resolve folder = place := by
  have hplace : t.node? (place ++ []) = some .folder := by rw [List.append_nil, h.isFolder]
  have hresolve := h.resolve_extend ht hplace
  rw [List.append_nil, FilePath.extend, List.append_nil] at hresolve
  exact hresolve

theorem exists_of_mapM_eq_error {ε α β : Type} {f : α → Except ε β} {xs : List α} {fault : ε}
    (h : xs.mapM f = .error fault) : ∃ x ∈ xs, f x = .error fault := by
  induction xs with
  | nil => cases h
  | cons x xs ih =>
    rw [List.mapM_cons] at h
    cases hx : f x with
    | error other =>
      rw [hx] at h
      cases h
      exact ⟨x, List.mem_cons_self, hx⟩
    | ok y =>
      cases hxs : xs.mapM f with
      | error other =>
        rw [hx, hxs] at h
        cases h
        obtain ⟨x', hmem, hx'⟩ := ih hxs
        exact ⟨x', List.mem_cons_of_mem _ hmem, hx'⟩
      | ok ys =>
        rw [hx, hxs] at h
        cases h

/-- A source that cannot be read has no files, or a file that cannot be read. -/
theorem exists_file_of_source (ht : t.IsTree) (h : t.LeadsInto folder path place)
    (hregular : NoSchemaFolder t place) {fault : SourceFault}
    (hs : source t folder path = .error fault) :
    fault = .noFiles path ∨ ∃ names ∈ schemaFiles t place,
      readFile t (path.extend names) (place ++ names) = .error fault := by
  rw [source, entries_of_leadsInto h, (entriesBelow_eq_iff ht).mpr hregular] at hs
  split at hs
  · cases hs
    exact .inl rfl
  · right
    cases hm : ((schemaFiles t place).map path.extend).mapM (entryText t folder) with
    | ok texts =>
      rw [hm] at hs
      cases hs
    | error other =>
      rw [hm] at hs
      cases hs
      obtain ⟨entry, hentry, htext⟩ := exists_of_mapM_eq_error hm
      obtain ⟨names, hnames, rfl⟩ := List.mem_map.mp hentry
      exact ⟨names, hnames, by rwa [entryText_of_file ht h hnames] at htext⟩

theorem readFile_eq_invalid {entry entry' : FilePath} {file : Location} {text : String}
    {fault : Document.Fault} (h : readFile t entry file = .error (.invalid entry' text fault)) :
    entry' = entry ∧ t.read file = .ok text ∧ Document.read text = .error fault := by
  rw [readFile] at h
  split at h
  · cases h
  · rename_i read hread
    split at h
    · rename_i other hother
      cases h
      exact ⟨rfl, hread, hother⟩
    · cases h

theorem readFile_ne_invalidWhole (entry : FilePath) (file : Location) (fault : Document.Fault) :
    readFile t entry file ≠ .error (.invalidWhole fault) := by
  intro h
  rw [readFile] at h
  split at h
  · cases h
  · split at h
    · cases h
    · cases h

theorem exists_document_of_readFile {entry : FilePath} {file : Location} {text : String}
    (h : readFile t entry file = .ok text) : ∃ document, Document.read text = .ok document := by
  rw [readFile] at h
  split at h
  · cases h
  · split at h
    · cases h
    · rename_i document hdocument
      cases h
      exact ⟨document, hdocument⟩

theorem exists_forall₂ {α β γ : Type} {r : β → γ → Prop} {xs : List α} {ys : List β}
    (h : List.Forall₂ (fun _ y => ∃ z, r y z) xs ys) : ∃ zs, List.Forall₂ r ys zs := by
  induction h with
  | nil => exact ⟨[], .nil⟩
  | cons hfirst _ ih =>
    obtain ⟨z, hz⟩ := hfirst
    obtain ⟨zs, hzs⟩ := ih
    exact ⟨z :: zs, .cons hz hzs⟩

/-- The texts a source is made of are those of the files, each a document by itself. -/
theorem exists_documents_of_source (ht : t.IsTree) (h : t.LeadsInto folder path place)
    (hregular : NoSchemaFolder t place) {text : String} (hs : source t folder path = .ok text) :
    ∃ texts documents,
      (schemaFiles t place).mapM (fun names => t.read (place ++ names)) = .ok texts ∧
        List.Forall₂ (fun text document => Document.read text = .ok document) texts documents ∧
        texts ≠ [] ∧ text = concatenated texts := by
  obtain ⟨texts, rfl, htexts⟩ := exists_texts_of_source h hs
  rw [(entriesBelow_eq_iff ht).mpr hregular] at htexts
  have hmem := (List.forall₂_and_left _ _).mpr ⟨fun names hn => hn, htexts⟩
  have hdocuments : List.Forall₂ (fun _ text => ∃ document, Document.read text = .ok document)
      (schemaFiles t place) texts := by
    refine hmem.imp fun names text ⟨hfile, htext⟩ => ?_
    rw [entryText_of_file ht h hfile] at htext
    exact exists_document_of_readFile htext
  obtain ⟨documents, hread⟩ := exists_forall₂ hdocuments
  refine ⟨texts, documents, mapM_read_of_entryTexts ht h htexts, hread, ?_, rfl⟩
  rintro rfl
  rw [source, entries_of_leadsInto h, (entriesBelow_eq_iff ht).mpr hregular,
    List.forall₂_nil_right_iff.mp htexts] at hs
  cases hs

/-- What goes wrong with an analysis goes wrong with its source, or with the source as a whole. -/
theorem ofPath_eq_error (ht : t.IsTree) (h : t.LeadsInto folder path place)
    {subgraph : Option String} {now : Instant} {fault : SourceFault}
    (hp : Analysis.ofPath t folder path subgraph now = .error fault) :
    source t folder (.ofLocation place) = .error fault ∨
      ∃ text whole, fault = .invalidWhole whole ∧
        source t folder (.ofLocation place) = .ok text ∧ Document.read text = .error whole := by
  rw [Analysis.ofPath, resolve_of_leadsInto ht h] at hp
  split at hp
  · rename_i other hs
    cases hp
    exact .inl hs
  · rename_i text hs
    right
    cases hread : Document.read text with
    | ok document =>
      rw [Analysis.ofSource, hread] at hp
      cases hp
    | error whole =>
      rw [Analysis.ofSource, hread] at hp
      cases hp
      exact ⟨text, whole, rfl, hs, hread⟩

/-- The files of a schema folder are documents by themselves, and their texts together are these
documents in a row just if they are parted. A fault names a file whose own text has it, unless the
files are not parted. -/
theorem read_source_iff (ht : t.IsTree) (h : t.LeadsInto folder path place)
    (hregular : NoSchemaFolder t place) :
    (∀ text, source t folder path = .ok text →
      ∃ texts documents, (schemaFiles t place).mapM (fun names => t.read (place ++ names)) =
          .ok texts ∧
        List.Forall₂ (fun text document => Document.read text = .ok document) texts documents ∧
        text = concatenated texts ∧
        (Document.read text = .ok documents.flatten ↔
          Document.Parted (texts.map Document.lexemesOf))) ∧
    ∀ subgraph now,
      (∀ entry text fault,
        Analysis.ofPath t folder path subgraph now = .error (.invalid entry text fault) →
          ∃ names ∈ schemaFiles t place, entry = .ofLocation (place ++ names) ∧
            t.read (place ++ names) = .ok text ∧ Document.read text = .error fault) ∧
      ∀ fault, Analysis.ofPath t folder path subgraph now = .error (.invalidWhole fault) →
        ∃ texts, (schemaFiles t place).mapM (fun names => t.read (place ++ names)) = .ok texts ∧
          ¬ Document.Parted (texts.map Document.lexemesOf) := by
  have hplace := leadsInto_ofLocation ht h.isFolder folder
  refine ⟨fun text hs => ?_,
    fun subgraph now => ⟨fun entry text fault hp => ?_, fun fault hp => ?_⟩⟩
  · obtain ⟨texts, documents, hfiles, hread, hne, rfl⟩ :=
      exists_documents_of_source ht h hregular hs
    exact ⟨texts, documents, hfiles, hread, rfl, Document.read_concatenated_iff hread hne⟩
  · rcases ofPath_eq_error ht h hp with hs | ⟨_, _, hwhole, -⟩
    · rcases exists_file_of_source ht hplace hregular hs with hno | ⟨names, hnames, hfile⟩
      · cases hno
      · exact ⟨names, hnames, readFile_eq_invalid hfile⟩
    · cases hwhole
  · rcases ofPath_eq_error ht h hp with hs | ⟨text, whole, -, hs, hwhole⟩
    · rcases exists_file_of_source ht hplace hregular hs with hno | ⟨names, -, hfile⟩
      · cases hno
      · exact absurd hfile (readFile_ne_invalidWhole _ _ _)
    · obtain ⟨texts, documents, hfiles, hread, hne, rfl⟩ :=
        exists_documents_of_source ht hplace hregular hs
      refine ⟨texts, hfiles, fun hparted => ?_⟩
      rw [(Document.read_concatenated_iff hread hne).mpr hparted] at hwhole
      cases hwhole

/-! ## Two files -/

/-- A folder with two schema files. -/
def twoFiles (first second : String) : FileTree :=
  (FileTree.empty.put ["a.graphql"] (.file (.text first))).put ["b.graphql"] (.file (.text second))

theorem isTree_twoFiles (first second : String) : (twoFiles first second).IsTree := by
  have hfirst : (FileTree.empty.put ["a.graphql"] (.file (.text first))).IsTree :=
    isTree_empty.put (by decide) (by decide) (rooted_nil _) nofun
  exact hfirst.put (by decide) (by decide) (rooted_nil _) nofun

theorem leadsInto_twoFiles (first second : String) :
    (twoFiles first second).LeadsInto [] here [] := ⟨nofun, rfl, rfl⟩

theorem noSchemaFolder_twoFiles (first second : String) :
    NoSchemaFolder (twoFiles first second) [] :=
  (schemaFolders_eq_nil_iff (isTree_twoFiles first second)).mp (by rfl)

theorem schemaFiles_twoFiles (first second : String) :
    schemaFiles (twoFiles first second) [] = [["a.graphql"], ["b.graphql"]] := by
  have hnodes : ((schemaNodes (twoFiles first second) []).filter fun entry =>
      !entry.2.isFolder).map Prod.fst = [["a.graphql"], ["b.graphql"]] := rfl
  rw [schemaFiles, hnodes]
  exact List.mergeSort_of_pairwise (by decide +kernel)

theorem entries_twoFiles (first second : String) {path : FilePath}
    (h : (twoFiles first second).LeadsInto [] path []) :
    entries (twoFiles first second) [] path =
      [path.extend ["a.graphql"], path.extend ["b.graphql"]] := by
  have hregular := noSchemaFolder_twoFiles first second
  rw [entries_of_leadsInto h, (entriesBelow_eq_iff (isTree_twoFiles first second)).mpr hregular,
    schemaFiles_twoFiles]
  rfl

theorem ok_of_toOption {ε α : Type} {m : Except ε α} {value : α} (h : m.toOption = some value) :
    m = .ok value := by
  cases m with
  | error fault => cases h
  | ok other => rw [Option.some.inj h]

/-- The message for a text that is no document. -/
def wholeMessage? (text : String) : Option String :=
  match Document.read text with
  | .error fault => some (SourceFault.invalidWhole fault).message
  | .ok _ => none

theorem exists_fault_of_wholeMessage? {text message : String}
    (h : wholeMessage? text = some message) :
    ∃ fault, Document.read text = .error fault ∧
      (SourceFault.invalidWhole fault).message = message := by
  rw [wholeMessage?] at h
  split at h
  · rename_i fault hread
    exact ⟨fault, hread, Option.some.inj h⟩
  · cases h

/-- A type with its body. -/
def withBody : String := "type A \x7b a: Int \x7d"

/-- A type that leaves out its body. -/
def withoutBody : String := "type A"

/-- A definition that begins with a brace. -/
def shorthand : String := "\x7b a \x7d"

/-- Behind a type with its body a brace begins a definition of its own. -/
theorem read_source_withBody :
    (twoFiles withBody shorthand).IsTree ∧ (twoFiles withBody shorthand).LeadsInto [] here [] ∧
      NoSchemaFolder (twoFiles withBody shorthand) [] ∧
      source (twoFiles withBody shorthand) [] here = .ok (concatenated [withBody, shorthand]) ∧
      (∃ documents, List.Forall₂ (fun text document => Document.read text = .ok document)
          [withBody, shorthand] documents ∧
        Document.read (concatenated [withBody, shorthand]) = .ok documents.flatten) ∧
      ∀ subgraph now fault, Analysis.ofPath (twoFiles withBody shorthand) [] here subgraph now ≠
        .error (.invalidWhole fault) := by
  have ht := isTree_twoFiles withBody shorthand
  have hleads := leadsInto_twoFiles withBody shorthand
  have hregular := noSchemaFolder_twoFiles withBody shorthand
  have hsource : source (twoFiles withBody shorthand) [] here =
      .ok (concatenated [withBody, shorthand]) := by
    refine ok_of_toOption ?_
    rw [source, entries_twoFiles _ _ hleads]
    decide +kernel
  have hfiles : (schemaFiles (twoFiles withBody shorthand) []).mapM
      (fun names => (twoFiles withBody shorthand).read ([] ++ names)) =
        .ok [withBody, shorthand] := by
    rw [schemaFiles_twoFiles]
    rfl
  have hbrace : (Document.lexemesOf withBody).getLast? = some (.mark .braceRight) := by
    decide +kernel
  have hparted : Document.Parted ([withBody, shorthand].map Document.lexemesOf) :=
    List.isChain_cons_cons.mpr ⟨fun hopen => absurd hbrace hopen.getLast?_ne, .singleton _⟩
  obtain ⟨hread, hfaults⟩ := read_source_iff ht hleads hregular
  obtain ⟨texts, documents, htexts, hdocuments, -, hiff⟩ := hread _ hsource
  cases hfiles.symm.trans htexts
  refine ⟨ht, hleads, hregular, hsource, ⟨documents, hdocuments, hiff.mpr hparted⟩, ?_⟩
  intro subgraph now fault hp
  obtain ⟨texts, htexts, hnot⟩ := (hfaults subgraph now).2 fault hp
  cases hfiles.symm.trans htexts
  exact hnot hparted

/-- Behind a type that leaves out its body a brace is taken for that body. The files are documents,
but together they are none, and the fault names neither of them. -/
theorem ofPath_withoutBody :
    (twoFiles withoutBody shorthand).IsTree ∧
      (twoFiles withoutBody shorthand).LeadsInto [] here [] ∧
      NoSchemaFolder (twoFiles withoutBody shorthand) [] ∧
      (Document.read withoutBody).toOption.isSome = true ∧
      (Document.read shorthand).toOption.isSome = true ∧
      source (twoFiles withoutBody shorthand) [] here =
        .ok (concatenated [withoutBody, shorthand]) ∧
      ∃ fault, Analysis.ofPath (twoFiles withoutBody shorthand) [] here none default =
          .error (.invalidWhole fault) ∧
        (SourceFault.invalidWhole fault).message =
          "Could not parse <string>: Syntax Error: Expected \x27:\x27, found \x27\x7d\x27." := by
  have ht := isTree_twoFiles withoutBody shorthand
  have hleads := leadsInto_twoFiles withoutBody shorthand
  have hsource : source (twoFiles withoutBody shorthand) [] here =
      .ok (concatenated [withoutBody, shorthand]) := by
    refine ok_of_toOption ?_
    rw [source, entries_twoFiles _ _ hleads]
    decide +kernel
  have hroot : source (twoFiles withoutBody shorthand) [] (.ofLocation []) =
      .ok (concatenated [withoutBody, shorthand]) := by
    refine ok_of_toOption ?_
    rw [source, entries_twoFiles _ _ (leadsInto_ofLocation ht hleads.isFolder [])]
    decide +kernel
  have hmessage : wholeMessage? (concatenated [withoutBody, shorthand]) =
      some "Could not parse <string>: Syntax Error: Expected \x27:\x27, found \x27\x7d\x27." := by
    decide +kernel
  obtain ⟨fault, hread, hfault⟩ := exists_fault_of_wholeMessage? hmessage
  refine ⟨ht, hleads, noSchemaFolder_twoFiles _ _, by decide +kernel, by decide +kernel, hsource,
    fault, ?_, hfault⟩
  rw [Analysis.ofPath, resolve_of_leadsInto ht hleads, hroot]
  dsimp only
  rw [Analysis.ofSource, hread]
  rfl

end Schema

end FederationGraph
