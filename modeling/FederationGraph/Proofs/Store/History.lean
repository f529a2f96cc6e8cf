import FederationGraph.Proofs.Store.Folder
import FederationGraph.Proofs.Store.Index
import Mathlib.Data.Set.Function

/-!
# Stores over whole histories

A store that starts from nothing is changed by keeping analyses and by clearing.
What it answers then is what a map would answer that holds the last analysis kept
under each identifier since it was last cleared.

The files and the index are kept in step: both hold what that map holds, before
and after every change. An analysis comes back as it reads from its stored text;
what the reader of stored values refuses is stored all the same, and does not come
back.
-/
namespace FederationGraph.Store

open FileTree

/-- What changes a store. -/
inductive Change where
  | put (a : Analysis)
  | clear

/-- Makes a change. -/
def change (s : Store) (t : FileTree) : Change → FileTree × Except StoreFault Unit
  | .put a => s.put t a
  | .clear => s.clear t

/-- Makes changes one after the other, up to the first that fails. -/
def run (s : Store) (t : FileTree) : List Change → FileTree × Except StoreFault Unit
  | [] => (t, .ok ())
  | c :: rest =>
    match s.change t c with
    | (t, .ok ()) => s.run t rest
    | (t, .error fault) => (t, .error fault)

/-- The analyses by identifier after a change. -/
def Change.apply (live : OrderedMap Analysis) : Change → OrderedMap Analysis
  | .put a => live.insert a.metadata.schemaIdentifier a
  | .clear => .empty

/-- The analyses by identifier after changes: the last one kept under each identifier since the
last clearing, in the order of the identifiers' first ones since then. -/
def live (changes : List Change) : OrderedMap Analysis := changes.foldl Change.apply .empty

/-- What a store answers with a reading of a stored text. -/
def answerOf : Reading Analysis → Except StoreFault Analysis
  | .done a => .ok a
  | .refused problems => .error (.refused problems)

/-- An analysis as it comes back from its stored text. -/
def reloaded (a : Analysis) : Except StoreFault Analysis :=
  answerOf (Analysis.ofStored a.storedText)

/-! ## The names of files -/

theorem isName_fileName (id : String) : IsName (fileName id) := by
  have hlength : 5 ≤ (fileName id).length := by
    rw [fileName, String.length_append]
    exact Nat.le_add_left 5 _
  refine ⟨?_, fun h => ?_⟩
  · rw [FilePath.isPart, Bool.and_eq_true, bne_iff_ne, bne_iff_ne]
    constructor <;> (intro h; rw [h] at hlength; exact absurd hlength (by decide))
  · rw [h] at hlength
    exact absurd hlength (by decide)

theorem isName_indexName : IsName indexName := by decide

/-- A digest is written in hexadecimal digits, so that no file is named as the index is. -/
theorem fileName_ne_indexName (id : String) : fileName id ≠ indexName := by
  intro h
  have hdigest : Digest.md5 id = "index" := (String.append_left_inj ".json").mp h
  have hmem : 'i' ∈ (Digest.md5 id).toList := by rw [hdigest]; decide
  rw [Digest.md5, String.toList_ofList] at hmem
  obtain ⟨byte, -, hbyte⟩ := List.mem_flatMap.mp hmem
  exact absurd (Text.isSome_hexValue?_of_mem_hex hbyte) (by decide)

theorem fileName_inj {ids : Set String} (hids : Set.InjOn Digest.md5 ids) {a b : String}
    (ha : a ∈ ids) (hb : b ∈ ids) : fileName a = fileName b ↔ a = b := by
  constructor
  · exact fun h => hids ha hb ((String.append_left_inj ".json").mp h)
  · rintro rfl
    rfl

/-- The analysis that a file holds comes back as it reads from its text. -/
theorem get_of_node {s : Store} {t : FileTree} {id : String} {a : Analysis} (hs : s.WellPlaced)
    (h : s.Absent t ∨ s.Present t)
    (hnode : t.node? (s.file (fileName id)) = some (.file (.text a.storedText))) :
    s.get t id = reloaded a := by
  have hread : s.read t (fileName id) = .ok a.storedText := by
    rw [read_eq hs h (isName_fileName id) hnode]
    exact congrArg Except.ok (Json.unifyLineEnds_stored a.toValue)
  rw [get, has, holds_eq hs h (isName_fileName id), hnode, hread, reloaded]
  simp only [Option.isSome_some, if_true, Except.bind]
  cases Analysis.ofStored a.storedText <;> rfl

variable {s : Store} {t : FileTree} {ids : Set String} {kept entered : OrderedMap Analysis}

/-! ## The index -/

/-- The index says of the analyses what its text says of them. -/
theorem index_of_node (hs : s.WellPlaced) (h : s.Absent t ∨ s.Present t)
    (hshort : ∀ entry ∈ entered.entries, entry.2.metadata.Indexable)
    (hnode : t.node? (s.file indexName) = some (.file (.text (indexText (indexOf entered))))) :
    s.index t = .ok (indexOf entered) := by
  rw [Store.index, holds_eq hs h isName_indexName, read_eq hs h isName_indexName hnode, hnode,
    unifyLineEnds_indexText]
  simp [Except.bind, read_indexText hshort, OrderedMap.ofList_entries]

/-- A folder in place of the index is not to be read. -/
theorem index_unblocked (hs : s.WellPlaced) (ht : s.Absent t ∨ s.Present t)
    {entries : OrderedMap Value} (h : s.index t = .ok entries) :
    t.node? (s.file indexName) ≠ some .folder := by
  intro hnode
  rw [index, holds_eq hs ht isName_indexName, read_of_node hs ht isName_indexName hnode, hnode] at h
  cases h

theorem enter_eq (hs : s.WellPlaced) (h : s.Present t) {entries : OrderedMap Value}
    (hindex : s.index t = .ok entries) (m : Metadata) :
    s.enter t m = (t.put (s.file indexName)
      (.file (.text (indexText (entries.insert m.schemaIdentifier m.indexValue)))), .ok ()) := by
  rw [enter, hindex]
  exact write_eq hs h isName_indexName (index_unblocked hs (.inr h) hindex) _

/-! ## Files and index in step -/

/-- What a store holds, as far as the given identifiers go: the files hold the analyses that are
kept, the index says what it says of those that are entered. -/
structure Keeps (s : Store) (ids : Set String) (t : FileTree) (kept entered : OrderedMap Analysis) :
    Prop where
  folder : s.Absent t ∨ s.Present t
  files : ∀ id ∈ ids, t.node? (s.file (fileName id)) =
    (kept.get? id).map fun a => .file (.text a.storedText)
  index : t.node? (s.file indexName) =
    if entered.entries = [] then none else some (.file (.text (indexText (indexOf entered))))
  known : ∀ entry ∈ entered.entries, entry.1 ∈ ids
  indexable : ∀ entry ∈ entered.entries, entry.2.metadata.Indexable

theorem keeps_of_absent (h : s.Absent t) : s.Keeps ids t .empty .empty where
  folder := .inl h
  files id _ := h.nothing _ (List.prefix_append _ _)
  index := h.nothing _ (List.prefix_append _ _)
  known := by simp [OrderedMap.empty]
  indexable := by simp [OrderedMap.empty]

theorem Keeps.index_eq (hs : s.WellPlaced) (h : s.Keeps ids t kept entered) :
    s.index t = .ok (indexOf entered) := by
  have hindex := h.index
  by_cases hempty : entered.entries = []
  · have hnothing : indexOf entered = .empty :=
      OrderedMap.ext (by simp [indexOf, OrderedMap.map, OrderedMap.empty, hempty])
    rw [Store.index, holds_eq hs h.folder isName_indexName, hindex, if_pos hempty, hnothing]
    rfl
  · rw [if_neg hempty] at hindex
    exact index_of_node hs h.folder h.indexable hindex

/-- Making the folder changes nothing that is held. -/
theorem Keeps.makeFolder (hs : s.WellPlaced) (h : s.Keeps ids t kept entered) :
    ∃ made, s.makeFolder t = .ok made ∧ s.Present made ∧ s.Keeps ids made kept entered := by
  obtain ⟨made, hmade, hpresent, hsame⟩ := exists_makeFolder hs h.folder
  refine ⟨made, hmade, hpresent, { h with folder := .inr hpresent, files := ?_, index := ?_ }⟩
  · intro id hid
    rw [hsame, h.files id hid]
  · rw [hsame, h.index]

/-- Writing the file of an analysis leaves the index behind. -/
theorem Keeps.write_file (hs : s.WellPlaced) (hids : Set.InjOn Digest.md5 ids)
    (hpresent : s.Present t) (h : s.Keeps ids t kept entered) {id : String} (hid : id ∈ ids)
    (a : Analysis) :
    ∃ after, s.write t (fileName id) a.storedText = (after, .ok ()) ∧ s.Present after ∧
      s.Keeps ids after (kept.insert id a) entered := by
  have hnode : t.node? (s.file (fileName id)) ≠ some .folder := by
    rw [h.files id hid]
    cases kept.get? id <;> simp
  have hafter := hpresent.put hs (fileName id) (.file (.text a.storedText))
  refine ⟨_, write_eq hs hpresent (isName_fileName id) hnode _, hafter,
    { h with folder := .inr hafter, files := ?_, index := ?_ }⟩
  · intro other hother
    simp only [node?_put_file, fileName_inj hids hother hid, OrderedMap.get?_insert]
    split
    · rfl
    · exact h.files other hother
  · rw [node?_put_file, if_neg (fileName_ne_indexName id).symm, h.index]

/-- Entering an analysis lets the index catch up. -/
theorem Keeps.enter (hs : s.WellPlaced) (hpresent : s.Present t) (h : s.Keeps ids t kept entered)
    {a : Analysis} (hid : a.metadata.schemaIdentifier ∈ ids) (ha : a.metadata.Indexable) :
    ∃ after, s.enter t a.metadata = (after, .ok ()) ∧
      s.Keeps ids after kept (entered.insert a.metadata.schemaIdentifier a) := by
  generalize hnext : entered.insert a.metadata.schemaIdentifier a = next
  refine ⟨t.put (s.file indexName) (.file (.text (indexText (indexOf next)))), ?_,
    ⟨.inr (hpresent.put hs _ _), ?_, ?_, ?_, ?_⟩⟩
  · rw [enter_eq hs hpresent (h.index_eq hs), indexOf_insert, hnext]
  · intro id hmem
    rw [node?_put_file, if_neg (fileName_ne_indexName id), h.files id hmem]
  · rw [node?_put_file, if_pos rfl, if_neg (hnext ▸ OrderedMap.entries_insert_ne_nil _ _ a)]
  · intro entry hentry
    rcases OrderedMap.mem_entries_insert (hnext ▸ hentry) with rfl | hentry
    · exact hid
    · exact h.known entry hentry
  · intro entry hentry
    rcases OrderedMap.mem_entries_insert (hnext ▸ hentry) with rfl | hentry
    · exact ha
    · exact h.indexable entry hentry

theorem Keeps.put (hs : s.WellPlaced) (hids : Set.InjOn Digest.md5 ids)
    (h : s.Keeps ids t kept kept) {a : Analysis} (hid : a.metadata.schemaIdentifier ∈ ids)
    (ha : a.metadata.Indexable) :
    let next := kept.insert a.metadata.schemaIdentifier a
    ∃ after, s.put t a = (after, .ok ()) ∧ s.Keeps ids after next next := by
  obtain ⟨made, hmade, hpresent, hmadeKeeps⟩ := h.makeFolder hs
  obtain ⟨written, hwritten, hpresent, hwrittenKeeps⟩ :=
    hmadeKeeps.write_file hs hids hpresent hid a
  obtain ⟨after, hafter, hkeeps⟩ := hwrittenKeeps.enter hs hpresent hid ha
  refine ⟨after, ?_, hkeeps⟩
  rw [Store.put, hmade]
  simp only [hwritten, hafter]

theorem Keeps.clear (hs : s.WellPlaced) (h : s.Keeps ids t kept entered) :
    ∃ after, s.clear t = (after, .ok ()) ∧ s.Keeps ids after .empty .empty := by
  obtain ⟨cleared, hclear, habsent⟩ := exists_clear hs h.folder
  exact ⟨cleared, hclear, keeps_of_absent habsent⟩

theorem Keeps.run (hs : s.WellPlaced) (hids : Set.InjOn Digest.md5 ids)
    (h : s.Keeps ids t kept kept) {changes : List Change}
    (hknown : ∀ a, .put a ∈ changes → a.metadata.schemaIdentifier ∈ ids)
    (hshort : ∀ a, .put a ∈ changes → a.metadata.Indexable) :
    let last := changes.foldl Change.apply kept
    ∃ after, s.run t changes = (after, .ok ()) ∧ s.Keeps ids after last last := by
  induction changes generalizing t kept with
  | nil => exact ⟨t, rfl, h⟩
  | cons c rest ih =>
    obtain ⟨next, hnext, hkeeps⟩ : ∃ next, s.change t c = (next, .ok ()) ∧
        s.Keeps ids next (c.apply kept) (c.apply kept) := by
      cases c with
      | put a => exact h.put hs hids (hknown a List.mem_cons_self) (hshort a List.mem_cons_self)
      | clear => exact h.clear hs
    rw [Store.run, hnext]
    exact ih hkeeps (fun a ha => hknown a (List.mem_cons_of_mem _ ha))
      fun a ha => hshort a (List.mem_cons_of_mem _ ha)

/-! ## Answers -/

/-- Whether an answer is that there is no such analysis. -/
def NotFound (answer : Except StoreFault Analysis) : Prop :=
  answer = .error .nothingStored ∨ ∃ id, answer = .error (.unknown id)

/-- What a store answers when the given analyses are live. -/
structure Answers (s : Store) (ids : Set String) (t : FileTree) (live : OrderedMap Analysis) :
    Prop where
  has : ∀ id ∈ ids, s.has t id = live.contains id
  get_live : ∀ id ∈ ids, ∀ a, live.get? id = some a → s.get t id = reloaded a
  get_other : ∀ id ∈ ids, live.get? id = none → s.get t id = .error (.unknown id)
  returns : ∀ id ∈ ids, ∀ a, live.get? id = some a → a.toValue.KeysDistinct →
    a.metadata.analyzedAt.Proper → ((∃ b, s.get t id = .ok b) ↔ Json.Storable a.toValue)
  list : ∃ listing, s.list t = .ok listing ∧ Lists (live.entries.map entryOf) listing
  first : ∀ entry rest, s.list t = .ok (entry :: rest) →
    s.mostRecent t = s.get t entry.schemaIdentifier
  resolve : s.resolve t none = s.mostRecent t
  notFound : NotFound (s.mostRecent t) ↔ live.entries = []

theorem reloaded_eq {a : Analysis} (hkeys : a.toValue.KeysDistinct)
    (htime : a.metadata.analyzedAt.Proper) :
    (Json.Storable a.toValue → reloaded a = .ok a.finitePart) ∧
    (¬ Json.Storable a.toValue → reloaded a = answerOf (.refuse .jsonInvalid)) := by
  obtain ⟨hdone, hrefused⟩ := Analysis.ofStored_eq hkeys htime
  refine ⟨fun h => ?_, fun h => ?_⟩
  · rw [reloaded, hdone h]
    rfl
  · rw [reloaded, hrefused h]

theorem exists_reloaded_iff {a : Analysis} (hkeys : a.toValue.KeysDistinct)
    (htime : a.metadata.analyzedAt.Proper) :
    (∃ b, reloaded a = .ok b) ↔ Json.Storable a.toValue := by
  obtain ⟨hloaded, hrefused⟩ := reloaded_eq hkeys htime
  by_cases h : Json.Storable a.toValue
  · simp [hloaded h, h]
  · simp [hrefused h, answerOf, Reading.refuse, h]

theorem not_notFound_reloaded (a : Analysis) : ¬ NotFound (reloaded a) := by
  rw [reloaded]
  cases Analysis.ofStored a.storedText <;> simp [answerOf, NotFound]

namespace Keeps

theorem has_eq (hs : s.WellPlaced) (h : s.Keeps ids t kept entered) {id : String} (hid : id ∈ ids) :
    s.has t id = kept.contains id := by
  rw [has, holds_eq hs h.folder (isName_fileName id), h.files id hid, Option.isSome_map]
  rfl

theorem get_eq (hs : s.WellPlaced) (h : s.Keeps ids t kept entered) {id : String} (hid : id ∈ ids)
    {a : Analysis} (ha : kept.get? id = some a) : s.get t id = reloaded a := by
  refine get_of_node hs h.folder ?_
  rw [h.files id hid, ha, Option.map_some]

theorem get_eq_unknown (hs : s.WellPlaced) (h : s.Keeps ids t kept entered) {id : String}
    (hid : id ∈ ids) (hnone : kept.get? id = none) : s.get t id = .error (.unknown id) := by
  rw [get, h.has_eq hs hid, OrderedMap.contains, hnone]
  rfl

theorem list_eq (hs : s.WellPlaced) (h : s.Keeps ids t kept entered) :
    s.list t = .ok ((entered.entries.map entryOf).mergeSort noOlder) := by
  rw [list, h.index_eq hs]
  simp only [Except.bind, mapM_readEntry, Except.map]

theorem answers (hs : s.WellPlaced) (h : s.Keeps ids t kept kept) : s.Answers ids t kept where
  has _ hid := h.has_eq hs hid
  get_live _ hid _ ha := h.get_eq hs hid ha
  get_other _ hid hnone := h.get_eq_unknown hs hid hnone
  returns id hid a ha hkeys htime := by
    rw [h.get_eq hs hid ha]
    exact exists_reloaded_iff hkeys htime
  list := ⟨_, h.list_eq hs, lists_mergeSort _⟩
  first entry rest hlist := by
    rw [mostRecent, hlist]
    rfl
  resolve := rfl
  notFound := by
    have hlists := lists_mergeSort (kept.entries.map entryOf)
    rw [mostRecent, h.list_eq hs]
    cases hsorted : (kept.entries.map entryOf).mergeSort noOlder with
    | nil =>
      have hnil : kept.entries.map entryOf = [] := (hsorted ▸ hlists.perm).nil_eq.symm
      simp [Except.bind, NotFound, List.map_eq_nil_iff.mp hnil]
    | cons entry rest =>
      have hmem : entry ∈ kept.entries.map entryOf :=
        hlists.perm.mem_iff.mp (hsorted ▸ List.mem_cons_self)
      obtain ⟨⟨id, a⟩, hentry, rfl⟩ := List.mem_map.mp hmem
      -- the first entry is that of a live analysis, and a live one is never said not to be there
      have hget := h.get_eq hs (h.known _ hentry) (OrderedMap.mem_entries.mp hentry)
      simp only [Except.bind, entryOf, hget, not_notFound_reloaded, false_iff]
      exact List.ne_nil_of_mem hentry

end Keeps

/-- A store in the folder one works in. -/
def nearby : Store := ⟨⟨.relative, ["cache"]⟩, ["work"]⟩

/-- Nothing but the folder one works in. -/
def workFolder : FileTree := ⟨[(["work"], .folder)]⟩

theorem wellPlaced_nearby : nearby.WellPlaced := by decide

theorem absent_workFolder : nearby.Absent workFolder where
  start := (rooted_nil workFolder).append rfl
  passable stop hstop contents := by
    have hstops : stop ∈ [["work"], ["work", "cache"]] := hstop
    simp only [List.mem_cons, List.not_mem_nil, or_false] at hstops
    rcases hstops with rfl | rfl <;> simp [node?, workFolder, List.lookup_cons]
  nothing location h := by
    have hne : location ≠ ["work"] := by
      rintro rfl
      exact absurd h (by decide)
    have hnil : location ≠ [] := by
      rintro rfl
      exact absurd h (by decide)
    simp [node?, workFolder, List.lookup_cons, hnil, beq_false_of_ne hne]

end FederationGraph.Store
