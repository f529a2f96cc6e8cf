import FederationGraph.Files.Home
import FederationGraph.Reading.Basic
import FederationGraph.Yaml.Meaning

/-!
# Settings

What a settings file says: where analyses are stored and which subgraph label
schemas get. Both may be left out or null. A document without a value gives the
defaults; any other root than a mapping is refused, and so are unknown keys and a
cache folder in a home folder that is not known.
-/
namespace FederationGraph

/-- The settings. -/
structure Settings where
  cacheDir : Option FilePath
  subgraph : Option String
  deriving DecidableEq, Repr, Inhabited

/-- Why a document gives no settings. -/
inductive SettingsFault where
  | document (fault : Yaml.Fault)
  | root (typeWord : String)
  | refused (problems : List Problem)
  | noHome (user : String)
  deriving DecidableEq, Repr, Inhabited

/-- The message about a root that is no mapping. -/
def rootMessage (typeWord : String) : String :=
  "Analyzer config root must be a mapping, got " ++ typeWord

/-- The wording of a fault. -/
def SettingsFault.message : SettingsFault → String
  | .document fault => "The document cannot be read: " ++ fault.message
  | .root typeWord => rootMessage typeWord
  | .refused _ => "The settings do not have the expected shape"
  | .noHome _ => "Could not determine home directory."

namespace Settings

/-- The settings where nothing is said. -/
def default : Settings := ⟨none, none⟩

/-- The value under a text key. -/
def valueUnder? (entries : List (Yaml × Yaml)) (key : String) : Option Yaml :=
  (entries.find? fun entry => Yaml.sameKey entry.1 (.text key)).map Prod.snd

/-- The name of the key for the cache folder, and its other name. -/
def cacheKeys : List String := ["cacheDir", "cache_dir"]

/-- The key under which the cache folder is given: the first of its names that is there. -/
def cacheKey? (entries : List (Yaml × Yaml)) : Option String :=
  cacheKeys.find? fun key => (valueUnder? entries key).isSome

/-- The name of the key for the subgraph label. -/
def subgraphKey : String := "subgraph"

/-- The text of the cache folder, or null. -/
def folderText : Yaml → Reading (Option String)
  | .null => .done none
  | .text s => .done (some s)
  | _ => Reading.refuse .pathType

/-- The text of a label, or null; bytes are a label if they are the bytes of a text. -/
def labelText : Yaml → Reading (Option String)
  | .null => .done none
  | .text s => .done (some s)
  | .bytes bytes =>
    match String.fromUTF8? ⟨bytes.toArray⟩ with
    | some s => .done (some s)
    | none => Reading.refuse .stringUnicode
  | _ => Reading.refuse .stringType

/-- The part under a key, which may be missing. -/
def part (entries : List (Yaml × Yaml)) (key : Option String) (name : String)
    (read : Yaml → Reading (Option String)) : Reading (Option String) :=
  match key.bind (valueUnder? entries) with
  | some value => (read value).under name
  | none => .done none

/-- What is wrong with the key of an entry, if anything; `known` are the keys that are used. -/
def keyProblem? (known : List String) (key : Yaml) : Option Problem :=
  match key with
  | .text s => if known.contains s then none else some ⟨[s], .extraForbidden⟩
  | other => some ⟨[other.keyText], .invalidKey⟩

/-- Refuses the keys that are not used. -/
def noOtherKeys (known : List String) (entries : List (Yaml × Yaml)) : Reading Unit :=
  match entries.filterMap fun entry => keyProblem? known entry.1 with
  | [] => .done ()
  | problems => .refused problems

/-- The settings of two parts. -/
def ofParts (cacheDir subgraph : Option String) (_ : Unit) : Settings :=
  ⟨cacheDir.map FilePath.ofText, subgraph⟩

/-- Reads the settings from the entries of a mapping. -/
def ofEntries (entries : List (Yaml × Yaml)) : Reading Settings :=
  let key := cacheKey? entries
  (((Reading.done ofParts).and (part entries key "cacheDir" folderText)).and
    (part entries (some subgraphKey) subgraphKey labelText)).and
    (noOtherKeys (subgraphKey :: key.toList) entries)

/-- The settings with the cache folder from the root if it starts at a home folder. -/
def expand (homes : Homes) (settings : Settings) : Except SettingsFault Settings :=
  match settings.cacheDir with
  | none => .ok settings
  | some path =>
    match path.expand? homes with
    | some folder => .ok { settings with cacheDir := some folder }
    | none => .error (.noHome (path.user?.getD ""))

/-- Reads the settings from the value of a document. -/
def ofDocument (homes : Homes) (document : Yaml) : Except SettingsFault Settings :=
  if document.isVoid then .ok default
  else
    match document with
    | .mapping entries =>
      match ofEntries entries with
      | .done settings => settings.expand homes
      | .refused problems => .error (.refused problems)
    | other => .error (.root other.typeWord)

/-- Reads the settings from a text. -/
def read (homes : Homes) (text : String) : Except SettingsFault Settings :=
  match Yaml.read text with
  | .ok document => ofDocument homes document
  | .error fault => .error (.document fault)

end Settings

end FederationGraph
