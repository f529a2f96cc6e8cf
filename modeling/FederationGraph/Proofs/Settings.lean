import FederationGraph.Proofs.Document.Names
import FederationGraph.Settings

/-!
# What a settings document gives

A settings document is meant to be either heeded or refused: null gives the
defaults, a mapping gives what stands under its keys or is refused for a key or
a value, and any other root is refused. Whether a root is there is decided by
whether it counts as no value, and false, zero and empty texts, lists and sets
count as none as well. So just these roots pass for a document that says
nothing. A cache folder in the home of somebody unknown is neither.
-/
namespace FederationGraph

open Settings

/-! ## Readings of several parts -/

namespace Reading

variable {α β : Type}

theorem and_eq_done_iff {f : Reading (α → β)} {a : Reading α} {b : β} :
    f.and a = .done b ↔ ∃ g x, f = .done g ∧ a = .done x ∧ g x = b := by
  cases f <;> cases a <;> simp [Reading.and]

theorem under_eq_done_iff {name : String} {a : Reading α} {b : α} :
    a.under name = .done b ↔ a = .done b := by
  cases a <;> simp [under]

end Reading

namespace Settings

variable {entries : List (Yaml × Yaml)} {name : String} {text : Option String}

/-! ## What stands under a key -/

/-- The names of the keys that settings have. -/
def keyNames : List String := subgraphKey :: cacheKeys

/-- A key is a text just if it is that text. -/
theorem sameKey_text_iff {key : Yaml} : Yaml.sameKey key (.text name) = true ↔ key = .text name := by
  cases key with
  | float x =>
    cases x with
    | finite x => cases hx : x.toInt? <;> simp [Yaml.sameKey, Yaml.number?, hx]
    | _ => simp [Yaml.sameKey, Yaml.number?]
  | _ => simp [Yaml.sameKey, Yaml.number?]

theorem isSome_valueUnder?_iff :
    (valueUnder? entries name).isSome = true ↔ ∃ entry ∈ entries, entry.1 = .text name := by
  simp [valueUnder?, sameKey_text_iff]

/-- `NamesFolder value text`: the value may stand for a cache folder, and names it by the text or
not at all. -/
inductive NamesFolder : Yaml → Option String → Prop
  | null : NamesFolder .null none
  | text (s : String) : NamesFolder (.text s) (some s)

/-- `NamesLabel value text`: the value may stand for a label, and gives it by the text or not at
all. Bytes may stand for the text they are the bytes of. -/
inductive NamesLabel : Yaml → Option String → Prop
  | null : NamesLabel .null none
  | text (s : String) : NamesLabel (.text s) (some s)
  | bytes (s : String) : NamesLabel (.bytes s.toByteArray.data.toList) (some s)

theorem folderText_eq_done_iff {value : Yaml} :
    folderText value = .done text ↔ NamesFolder value text := by
  constructor
  · intro h
    cases value with
    | null => cases h; exact .null
    | text s => cases h; exact .text s
    | _ => cases h
  · rintro (_ | s)
    · rfl
    · rfl

theorem fromUTF8?_eq_some_iff {bytes : ByteArray} {s : String} :
    String.fromUTF8? bytes = some s ↔ bytes = s.toByteArray := by
  unfold String.fromUTF8?
  constructor
  · intro h
    split at h
    · cases h
      rfl
    · cases h
  · rintro rfl
    rw [dif_pos s.isValidUTF8]
    rfl

theorem labelText_eq_done_iff {value : Yaml} :
    labelText value = .done text ↔ NamesLabel value text := by
  constructor
  · intro h
    cases value with
    | null => cases h; exact .null
    | text s => cases h; exact .text s
    | bytes octets =>
      rw [labelText] at h
      split at h
      · rename_i s hs
        cases h
        have hoctets : octets = s.toByteArray.data.toList := by
          rw [← fromUTF8?_eq_some_iff.mp hs]
        rw [hoctets]
        exact .bytes s
      · cases h
    | _ => cases h
  · rintro (_ | s | s)
    · rfl
    · rfl
    · have hs : String.fromUTF8? ⟨s.toByteArray.data.toList.toArray⟩ = some s :=
        fromUTF8?_eq_some_iff.mpr rfl
      rw [labelText, hs]

/-- `Under entries names Means text`: what stands under one of the names means the text, or nothing
stands there and the text is missing. -/
def Under (entries : List (Yaml × Yaml)) (names : List String)
    (Means : Yaml → Option String → Prop) (text : Option String) : Prop :=
  (∀ name ∈ names, valueUnder? entries name = none) ∧ text = none ∨
    ∃ name ∈ names, ∃ value, valueUnder? entries name = some value ∧ Means value text

/-- What a mapping gives whose keys and values are all right. -/
structure Gives (entries : List (Yaml × Yaml)) (folder label : Option String) : Prop where
  keys : ∀ entry ∈ entries, ∃ name ∈ keyNames, entry.1 = .text name
  folder : Under entries cacheKeys NamesFolder folder
  label : Under entries [subgraphKey] NamesLabel label

/-- Whether the cache folder is given under one of its names at most. -/
def GivesFolderOnce (entries : List (Yaml × Yaml)) : Prop :=
  ∃ name ∈ cacheKeys, valueUnder? entries name = none

theorem part_eq_done_iff {key : Option String} {read : Yaml → Reading (Option String)} :
    part entries key name read = .done text ↔
      key.bind (valueUnder? entries) = none ∧ text = none ∨
        ∃ value, key.bind (valueUnder? entries) = some value ∧ read value = .done text := by
  rw [part]
  cases key.bind (valueUnder? entries) with
  | none => simp [eq_comm]
  | some value => simp [Reading.under_eq_done_iff]

theorem labelPart_eq_done_iff :
    part entries (some subgraphKey) name labelText = .done text ↔
      Under entries [subgraphKey] NamesLabel text := by
  simp [part_eq_done_iff, Under, labelText_eq_done_iff]

theorem GivesFolderOnce.eq_of_isSome (h : GivesFolderOnce entries) {a b : String}
    (ha : a ∈ cacheKeys) (hb : b ∈ cacheKeys) (hva : (valueUnder? entries a).isSome = true)
    (hvb : (valueUnder? entries b).isSome = true) : a = b := by
  obtain ⟨missing, hm, hnone⟩ := h
  have hne : ∀ name, (valueUnder? entries name).isSome = true → name ≠ missing := by
    rintro name hv rfl
    rw [hnone] at hv
    cases hv
  have hna := hne a hva
  have hnb := hne b hvb
  simp only [cacheKeys, List.mem_cons, List.not_mem_nil, or_false] at ha hb hm
  grind

theorem GivesFolderOnce.cacheKey?_eq_some_iff (h : GivesFolderOnce entries) :
    cacheKey? entries = some name ↔
      name ∈ cacheKeys ∧ (valueUnder? entries name).isSome = true := by
  constructor
  · intro hkey
    have hfound := List.find?_some (p := fun key => (valueUnder? entries key).isSome) hkey
    exact ⟨List.mem_of_find?_eq_some hkey, hfound⟩
  · rintro ⟨hname, hvalue⟩
    cases hkey : cacheKey? entries with
    | none => exact absurd hvalue (List.find?_eq_none.mp hkey name hname)
    | some key =>
      have hfound := List.find?_some (p := fun key => (valueUnder? entries key).isSome) hkey
      rw [h.eq_of_isSome (List.mem_of_find?_eq_some hkey) hname hfound hvalue]

theorem folderPart_eq_done_iff (h : GivesFolderOnce entries) :
    part entries (cacheKey? entries) name folderText = .done text ↔
      Under entries cacheKeys NamesFolder text := by
  have hnone : (cacheKey? entries).bind (valueUnder? entries) = none ↔
      ∀ name ∈ cacheKeys, valueUnder? entries name = none := by
    constructor
    · intro hn key hkey
      cases hv : valueUnder? entries key with
      | none => rfl
      | some value =>
        have hfound := h.cacheKey?_eq_some_iff.mpr ⟨hkey, by rw [hv]; rfl⟩
        rw [hfound, Option.bind_some, hv] at hn
        cases hn
    · intro hall
      cases hkey : cacheKey? entries with
      | none => rfl
      | some key => exact hall key (List.mem_of_find?_eq_some hkey)
  have hsome : ∀ value, (cacheKey? entries).bind (valueUnder? entries) = some value ↔
      ∃ name ∈ cacheKeys, valueUnder? entries name = some value := by
    intro value
    rw [Option.bind_eq_some_iff]
    constructor
    · rintro ⟨key, hkey, hv⟩
      exact ⟨key, List.mem_of_find?_eq_some hkey, hv⟩
    · rintro ⟨key, hkey, hv⟩
      exact ⟨key, h.cacheKey?_eq_some_iff.mpr ⟨hkey, by rw [hv]; rfl⟩, hv⟩
  rw [part_eq_done_iff, Under, hnone]
  simp only [hsome, folderText_eq_done_iff]
  grind

/-! ## The keys -/

theorem keyProblem?_eq_none_iff {known : List String} {key : Yaml} :
    keyProblem? known key = none ↔ ∃ name ∈ known, key = .text name := by
  cases key with
  | text s => simp [keyProblem?]
  | _ => simp [keyProblem?]

theorem noOtherKeys_eq_done_iff {known : List String} :
    noOtherKeys known entries = .done () ↔ ∀ entry ∈ entries, ∃ name ∈ known, entry.1 = .text name := by
  have hnil : (entries.filterMap fun entry => keyProblem? known entry.1) = [] ↔
      ∀ entry ∈ entries, ∃ name ∈ known, entry.1 = .text name := by
    simp only [List.filterMap_eq_nil_iff, keyProblem?_eq_none_iff]
  rw [← hnil, noOtherKeys]
  cases entries.filterMap fun entry => keyProblem? known entry.1 with
  | nil => simp
  | cons problem problems => simp

/-- The keys that are used are all there are just if every key is one that settings have. -/
theorem GivesFolderOnce.keys_iff (h : GivesFolderOnce entries) :
    (∀ entry ∈ entries, ∃ name ∈ subgraphKey :: (cacheKey? entries).toList, entry.1 = .text name) ↔
      ∀ entry ∈ entries, ∃ name ∈ keyNames, entry.1 = .text name := by
  refine forall₂_congr fun entry he => exists_congr fun name => and_congr_left fun hkey => ?_
  have hvalue : (valueUnder? entries name).isSome = true :=
    isSome_valueUnder?_iff.mpr ⟨entry, he, hkey⟩
  simp [keyNames, h.cacheKey?_eq_some_iff, hvalue]

/-! ## Mappings -/

theorem ofEntries_eq_done_iff (h : GivesFolderOnce entries) {settings : Settings} :
    ofEntries entries = .done settings ↔
      ∃ folder label, Gives entries folder label ∧ settings = ofParts folder label () := by
  simp only [ofEntries, Reading.and_eq_done_iff, folderPart_eq_done_iff h, labelPart_eq_done_iff]
  constructor
  · rintro ⟨_, _, ⟨_, label, ⟨_, folder, hparts, hfolder, rfl⟩, hlabel, rfl⟩, hkeys, rfl⟩
    cases hparts
    exact ⟨folder, label, ⟨h.keys_iff.mp (noOtherKeys_eq_done_iff.mp hkeys), hfolder, hlabel⟩, rfl⟩
  · rintro ⟨folder, label, hgives, rfl⟩
    have hkeys := noOtherKeys_eq_done_iff.mpr (h.keys_iff.mpr hgives.keys)
    exact ⟨_, (), ⟨_, label, ⟨_, folder, rfl, hgives.folder, rfl⟩, hgives.label, rfl⟩, hkeys, rfl⟩

/-- What a mapping gives is settled by its entries. -/
theorem Gives.unique (h : GivesFolderOnce entries) {folder label folder' label' : Option String}
    (hgives : Gives entries folder label) (hgives' : Gives entries folder' label') :
    folder = folder' ∧ label = label' := by
  have hfolder : part entries (cacheKey? entries) "" folderText = .done folder :=
    (folderPart_eq_done_iff h).mpr hgives.folder
  have hlabel := (@labelPart_eq_done_iff entries "" label).mpr hgives.label
  rw [(folderPart_eq_done_iff h).mpr hgives'.folder] at hfolder
  rw [labelPart_eq_done_iff.mpr hgives'.label] at hlabel
  cases hfolder
  cases hlabel
  exact ⟨rfl, rfl⟩

/-! ## Documents -/

/-- Whether a document has a value that counts as none but is neither null nor a mapping: false,
zero, or a text, bytes, a list or a set without anything in it. -/
inductive Overlooked : Yaml → Prop
  | zero {value : Yaml} (h : value.number? = some 0) : Overlooked value
  | text : Overlooked (.text "")
  | bytes : Overlooked (.bytes [])
  | list : Overlooked (.list [])
  | set : Overlooked (.set [])

/-- Whether a document gives a cache folder in the home of somebody who is not known. -/
def Homeless (homes : Homes) (document : Yaml) : Prop :=
  ∃ entries folder label, document = .mapping entries ∧ Gives entries (some folder) label ∧
    (FilePath.ofText folder).expand? homes = none

/-- Whether the settings are those that a mapping gives, with the cache folder from the root if it
starts at a home folder. -/
structure Hold (homes : Homes) (folder label : Option String) (settings : Settings) : Prop where
  label : settings.subgraph = label
  folder : Option.Rel (fun text path => (FilePath.ofText text).expand? homes = some path) folder
    settings.cacheDir

/-- What a document should come to: null gives the defaults, a mapping what stands in it, unless a
key or a value is wrong, and any other root is refused. -/
structure Heeds (homes : Homes) (document : Yaml) (result : Except SettingsFault Settings) :
    Prop where
  root : (∃ word, result = .error (.root word)) ↔
    document ≠ .null ∧ ∀ entries, document ≠ .mapping entries
  refused : (∃ problems, result = .error (.refused problems)) ↔
    ∃ entries, document = .mapping entries ∧ ∀ folder label, ¬ Gives entries folder label
  null : document = .null → result = .ok default
  given : ∀ entries folder label, document = .mapping entries → Gives entries folder label →
    ∃ settings, result = .ok settings ∧ Hold homes folder label settings
  default : result = .ok default → document = .null ∨
    ∃ entries, document = .mapping entries ∧ Gives entries none none

theorem isVoid_iff {document : Yaml} :
    document.isVoid = true ↔
      document = .null ∨ document = .mapping [] ∨ Overlooked document := by
  constructor
  · intro h
    cases document with
    | null => exact .inl rfl
    | text s =>
      rw [beq_iff_eq.mp h]
      exact .inr (.inr .text)
    | bytes octets =>
      rw [List.isEmpty_iff.mp h]
      exact .inr (.inr .bytes)
    | list items =>
      rw [List.isEmpty_iff.mp h]
      exact .inr (.inr .list)
    | set members =>
      rw [List.isEmpty_iff.mp h]
      exact .inr (.inr .set)
    | mapping entries =>
      rw [List.isEmpty_iff.mp h]
      exact .inr (.inl rfl)
    | _ => exact .inr (.inr (.zero (beq_iff_eq.mp h)))
  · rintro (rfl | rfl | h)
    · rfl
    · rfl
    · cases h with
      | zero h =>
        cases document with
        | boolean b => exact beq_iff_eq.mpr h
        | integer n => exact beq_iff_eq.mpr h
        | float x => exact beq_iff_eq.mpr h
        | _ => cases h
      | _ => rfl

/-- Nothing that is overlooked is null or a mapping. -/
theorem Overlooked.ne {document : Yaml} (h : Overlooked document) :
    document ≠ .null ∧ ∀ entries, document ≠ .mapping entries := by
  constructor
  · rintro rfl
    cases h with
    | zero h => cases h
  · rintro entries rfl
    cases h with
    | zero h => cases h

theorem gives_nil : Gives [] none none where
  keys _ he := absurd he List.not_mem_nil
  folder := .inl ⟨fun _ _ => rfl, rfl⟩
  label := .inl ⟨fun _ _ => rfl, rfl⟩

theorem givesFolderOnce_nil : GivesFolderOnce [] := ⟨"cacheDir", by decide, rfl⟩

section

variable {homes : Homes} {document : Yaml} {folder label : Option String}

theorem Overlooked.ofDocument_eq (h : Overlooked document) :
    ofDocument homes document = .ok default := by
  unfold ofDocument
  rw [if_pos (isVoid_iff.mpr (.inr (.inr h)))]

theorem ofDocument_root (hnull : document ≠ .null)
    (hmapping : ∀ entries, document ≠ .mapping entries) (hseen : ¬ Overlooked document) :
    ofDocument homes document = .error (.root document.typeWord) := by
  have hvoid : ¬ document.isVoid = true := by
    rw [isVoid_iff]
    rintro (h | h | h)
    · exact hnull h
    · exact hmapping [] h
    · exact hseen h
  unfold ofDocument
  rw [if_neg hvoid]
  cases document with
  | mapping entries => exact absurd rfl (hmapping entries)
  | _ => rfl

theorem ofDocument_of_gives (h : GivesFolderOnce entries) (hgives : Gives entries folder label) :
    ofDocument homes (.mapping entries) = (ofParts folder label ()).expand homes := by
  cases entries with
  | nil =>
    obtain ⟨rfl, rfl⟩ := hgives.unique h gives_nil
    rfl
  | cons entry others =>
    have hdone := (ofEntries_eq_done_iff h).mpr ⟨folder, label, hgives, rfl⟩
    rw [ofDocument, if_neg (by exact Bool.false_ne_true), hdone]

theorem exists_ofDocument_refused (h : GivesFolderOnce entries)
    (hnone : ∀ folder label, ¬ Gives entries folder label) :
    ∃ problems, ofDocument homes (.mapping entries) = .error (.refused problems) := by
  cases entries with
  | nil => exact absurd gives_nil (hnone none none)
  | cons entry others =>
    rw [ofDocument, if_neg (by exact Bool.false_ne_true)]
    split
    · rename_i settings hdone
      obtain ⟨folder, label, hgives, -⟩ := (ofEntries_eq_done_iff h).mp hdone
      exact absurd hgives (hnone folder label)
    · exact ⟨_, rfl⟩

/-- A cache folder is found from the root unless it is in a home that is not known. -/
theorem expand_ofParts_cases :
    (∃ settings, (ofParts folder label ()).expand homes = .ok settings ∧
      Hold homes folder label settings) ∨
    ∃ text user, folder = some text ∧ (FilePath.ofText text).expand? homes = none ∧
      (ofParts folder label ()).expand homes = .error (.noHome user) := by
  cases folder with
  | none => exact .inl ⟨⟨none, label⟩, rfl, rfl, .none⟩
  | some text =>
    cases hpath : (FilePath.ofText text).expand? homes with
    | none => exact .inr ⟨text, _, rfl, hpath, by simp [ofParts, expand, hpath]; rfl⟩
    | some path => exact .inl ⟨⟨some path, label⟩, by simp [ofParts, expand, hpath], rfl, .some hpath⟩

theorem heeds_null : Heeds homes .null (ofDocument homes .null) where
  root := ⟨fun ⟨_, h⟩ => (nomatch h), fun h => absurd rfl h.1⟩
  refused := ⟨fun ⟨_, h⟩ => (nomatch h), fun ⟨_, h, _⟩ => (nomatch h)⟩
  null _ := rfl
  given _ _ _ h := nomatch h
  default _ := .inl rfl

theorem heeds_refused {problems : List Problem}
    (hnone : ∀ folder label, ¬ Gives entries folder label) :
    Heeds homes (.mapping entries) (.error (.refused problems)) where
  root := ⟨fun ⟨_, h⟩ => (nomatch h), fun h => absurd rfl (h.2 entries)⟩
  refused := ⟨fun _ => ⟨entries, rfl, hnone⟩, fun _ => ⟨problems, rfl⟩⟩
  null h := nomatch h
  given := by
    rintro _ folder label ⟨⟩ hgives
    exact absurd hgives (hnone folder label)
  default h := nomatch h

theorem heeds_given (h : GivesFolderOnce entries) (hgives : Gives entries folder label)
    {settings : Settings} (hold : Hold homes folder label settings) :
    Heeds homes (.mapping entries) (.ok settings) where
  root := ⟨fun ⟨_, h⟩ => (nomatch h), fun h => absurd rfl (h.2 entries)⟩
  refused := by
    refine ⟨fun ⟨_, h⟩ => (nomatch h), ?_⟩
    rintro ⟨_, ⟨⟩, hnone⟩
    exact absurd hgives (hnone folder label)
  null h := nomatch h
  given := by
    rintro _ folder' label' ⟨⟩ hgives'
    obtain ⟨rfl, rfl⟩ := hgives.unique h hgives'
    exact ⟨settings, rfl, hold⟩
  default := by
    rintro ⟨⟩
    obtain ⟨hlabel, hfolder⟩ := hold
    obtain rfl : none = label := hlabel
    cases hfolder
    exact .inr ⟨entries, rfl, hgives⟩

theorem heeds_root (hnull : document ≠ .null) (hmapping : ∀ entries, document ≠ .mapping entries)
    {word : String} : Heeds homes document (.error (.root word)) where
  root := ⟨fun _ => ⟨hnull, hmapping⟩, fun _ => ⟨word, rfl⟩⟩
  refused := ⟨fun ⟨_, h⟩ => (nomatch h), fun ⟨entries, h, _⟩ => absurd h (hmapping entries)⟩
  null h := absurd h hnull
  given entries _ _ h := absurd h (hmapping entries)
  default h := nomatch h

/-- A document is heeded or refused as it should be just if its root is not overlooked and it puts
the cache folder in no unknown home. A root that is overlooked gives the defaults. -/
theorem heeds_read_iff {text : String} (hread : Yaml.read text = .ok document)
    (honce : ∀ entries, document = .mapping entries → GivesFolderOnce entries) :
    (Heeds homes document (read homes text) ↔
      ¬ Overlooked document ∧ ¬ Homeless homes document) ∧
    (Overlooked document → read homes text = .ok default) ∧
    (Homeless homes document → ∃ user, read homes text = .error (.noHome user)) := by
  rw [read, hread]
  dsimp only
  have hhomeless : Homeless homes document →
      ∃ user, ofDocument homes document = .error (.noHome user) := by
    rintro ⟨entries, folder, label, rfl, hgives, hhome⟩
    rw [ofDocument_of_gives (honce entries rfl) hgives]
    exact ⟨_, by simp [ofParts, expand, hhome]; rfl⟩
  refine ⟨⟨fun hheeds => ⟨fun h => ?_, ?_⟩, ?_⟩, Overlooked.ofDocument_eq, hhomeless⟩
  · -- the defaults are for null and mappings, and what is overlooked is neither
    rcases hheeds.default h.ofDocument_eq with hnull | ⟨entries, hmapping, -⟩
    · exact h.ne.1 hnull
    · exact h.ne.2 entries hmapping
  · rintro ⟨entries, folder, label, hmapping, hgives, hhome⟩
    obtain ⟨user, hresult⟩ := hhomeless ⟨entries, folder, label, hmapping, hgives, hhome⟩
    obtain ⟨settings, hok, -⟩ := hheeds.given entries _ label hmapping hgives
    rw [hresult] at hok
    cases hok
  · rintro ⟨hseen, hhome⟩
    by_cases hnull : document = .null
    · rw [hnull]
      exact heeds_null
    by_cases hmapping : ∃ entries, document = .mapping entries
    · obtain ⟨entries, rfl⟩ := hmapping
      have h := honce entries rfl
      by_cases hgives : ∃ folder label, Gives entries folder label
      · obtain ⟨folder, label, hgives⟩ := hgives
        rw [ofDocument_of_gives h hgives]
        obtain ⟨settings, hexpand, hold⟩ | ⟨path, user, rfl, hpath, -⟩ :=
          @expand_ofParts_cases homes folder label
        · rw [hexpand]
          exact heeds_given h hgives hold
        · exact absurd ⟨entries, path, label, rfl, hgives, hpath⟩ hhome
      · have hnone : ∀ folder label, ¬ Gives entries folder label :=
          fun folder label hg => hgives ⟨folder, label, hg⟩
        obtain ⟨problems, hresult⟩ := @exists_ofDocument_refused _ homes h hnone
        rw [hresult]
        exact heeds_refused hnone
    · have hother : ∀ entries, document ≠ .mapping entries := fun entries h => hmapping ⟨entries, h⟩
      rw [ofDocument_root hnull hother hseen]
      exact heeds_root hnull hother

end

/-- The home folders of a machine on which nobody else is known. -/
def alone : Homes := ⟨FilePath.ofText "/home/a", []⟩

/-- The entries of a mapping with a label and a cache folder in one's own home. -/
def homeEntries : List (Yaml × Yaml) :=
  [(.text "subgraph", .text "a"), (.text "cacheDir", .text "~/x")]

/-- Whether a document is the mapping with these entries. -/
def isHome : Yaml → Bool
  | .mapping [(.text key, .text label), (.text folderKey, .text folder)] =>
    key == "subgraph" && label == "a" && folderKey == "cacheDir" && folder == "~/x"
  | _ => false

theorem eq_of_isHome {document : Yaml} (h : isHome document = true) :
    document = .mapping homeEntries := by
  unfold isHome at h
  split at h
  · simp only [Bool.and_eq_true, beq_iff_eq] at h
    obtain ⟨⟨⟨rfl, rfl⟩, rfl⟩, rfl⟩ := h
    rfl
  · cases h

theorem read_homeEntries :
    Yaml.read "subgraph: a\ncacheDir: ~/x" = .ok (.mapping homeEntries) := by
  have hread : (Yaml.read "subgraph: a\ncacheDir: ~/x").toOption.any isHome = true := by
    decide +kernel
  obtain ⟨document, hread, hdocument⟩ := Document.exists_of_any_toOption hread
  rw [hread, eq_of_isHome hdocument]

theorem gives_homeEntries : Gives homeEntries (some "~/x") (some "a") where
  keys := by simp [homeEntries, keyNames, subgraphKey, cacheKeys]
  folder := .inr ⟨"cacheDir", by decide, _, rfl, .text _⟩
  label := .inr ⟨"subgraph", by decide, _, rfl, .text _⟩

theorem heeds_read_of_home :
    Yaml.read "subgraph: a\ncacheDir: ~/x" = .ok (.mapping homeEntries) ∧
      GivesFolderOnce homeEntries ∧
      Heeds alone (.mapping homeEntries) (read alone "subgraph: a\ncacheDir: ~/x") := by
  have honce : GivesFolderOnce homeEntries := ⟨"cache_dir", by decide, rfl⟩
  have hhome : ¬ Homeless alone (.mapping homeEntries) := by
    rintro ⟨_, folder, label, ⟨⟩, hgives, hpath⟩
    obtain ⟨hfolder, -⟩ := gives_homeEntries.unique honce hgives
    cases hfolder
    exact absurd hpath (by decide)
  have honce' : ∀ entries, Yaml.mapping homeEntries = .mapping entries →
      GivesFolderOnce entries := by
    rintro _ ⟨⟩
    exact honce
  have hheeds := (@heeds_read_iff alone _ _ read_homeEntries honce').1
  exact ⟨read_homeEntries, honce, hheeds.mpr ⟨fun h => h.ne.2 homeEntries rfl, hhome⟩⟩

/-- Whether a document is false and nothing else. -/
def isFalse : Yaml → Bool
  | .boolean b => !b
  | _ => false

theorem eq_of_isFalse {document : Yaml} (h : isFalse document = true) :
    document = .boolean false := by
  cases document with
  | boolean b =>
    cases b with
    | true => cases h
    | false => rfl
  | _ => cases h

/-- A document that says false passes for one that says nothing. -/
theorem not_heeds_false :
    Yaml.read "false" = .ok (.boolean false) ∧ read alone "false" = .ok default ∧
      ¬ Heeds alone (.boolean false) (read alone "false") := by
  have hread : Yaml.read "false" = .ok (.boolean false) := by
    have hfalse : (Yaml.read "false").toOption.any isFalse = true := by decide +kernel
    obtain ⟨document, hread, hdocument⟩ := Document.exists_of_any_toOption hfalse
    rw [hread, eq_of_isFalse hdocument]
  have hdefault : read alone "false" = .ok default := by
    rw [read, hread]
    rfl
  refine ⟨hread, hdefault, fun h => ?_⟩
  obtain ⟨word, hroot⟩ := h.root.mpr ⟨nofun, nofun⟩
  rw [hdefault] at hroot
  cases hroot

end Settings

end FederationGraph
