import FederationGraph.CommandLine.Run

/-!
# What runs do

A run without a log file is decided by what its command line is understood as: the
options before the command, the settings, and the request. Where it is not
understood, or asks about the program itself, nothing changes. Where it is, the
request is performed.

Requests that only ask leave the session as it is. Analyzing a schema leaves it as
it is, too, unless the schema is read and what is stored of it may be replaced.
-/
namespace FederationGraph.CommandLine

open Console

/-! ## Command lines -/

/-- Whether a command line asks for a log file. -/
def opensLog (words : List String) : Bool :=
  (Words.read? sharedRules true words).any (·.has "--log-file")

/-- The name of the command in a command line. -/
def commandName? (words : List String) : Option String :=
  (Words.read? sharedRules true words).bind (·.operands.head?)

/-- What a command line is understood as. -/
structure Invocation where
  threshold : Level
  items : List Item
  settings : Settings
  store : Store
  request : Request
  deriving Inhabited

/-- What a command line is understood as in a session, if it is understood and asks for more than
the program itself. -/
def invocation? (s : Session) (words : List String) : Option Invocation := do
  let w ← (Words.read? sharedRules true words).filter fun w => (ownReport? w).isNone
  let shared ← Shared.ofWords? s w
  let (command, behind) ← commandOf? w.operands
  let settings ← (loadSettings s shared.settingsFile).2.toOption
  let request ← command.read? behind
  some ⟨shared.threshold, (loadSettings s shared.settingsFile).1, settings,
    storeOf s shared settings, request⟩

namespace Invocation

/-- What the request of a command line comes to. -/
def perform (v : Invocation) (s : Session) : Session × Outcome :=
  CommandLine.perform s v.store v.settings v.request

/-- The report on an outcome. -/
def report (v : Invocation) (o : Outcome) : Report := (o.after v.items).report v.threshold

end Invocation

variable {s : Session} {words : List String} {v : Invocation}

theorem value?_of_not_has {w : Words} {name : String} (h : w.has name = false) :
    w.value? name = none := by
  have hgiven : w.given.reverse.find? (fun option => option.1 == name) = none := by
    rw [List.find?_eq_none]
    intro option hoption
    rw [Words.has, List.any_eq_false] at h
    exact h option (List.mem_reverse.mp hoption)
  rw [Words.value?, hgiven]
  rfl

/-- Without the option for it there is no log file. -/
theorem logFile_of_ofWords? {w : Words} {shared : Shared} (hlog : w.has "--log-file" = false)
    (h : Shared.ofWords? s w = some shared) : shared.logFile = none := by
  simp only [Shared.ofWords?, value?_of_not_has hlog, Option.bind_eq_bind,
    Option.bind_eq_some_iff] at h
  obtain ⟨threshold, -, logFile, hfile, settingsFile, -, cacheDir, -, hshared⟩ := h
  cases hshared
  cases hfile
  rfl

/-- A command without a log file reads its settings and its words, and does what they ask for. -/
theorem runCommand_cases {shared : Shared} (hfile : shared.logFile = none) (command : Command)
    (behind : List String) :
    (∃ items settings request, loadSettings s shared.settingsFile = (items, .ok settings) ∧
      command.read? behind = some request ∧
        runCommand s shared command behind =
          ((perform s (storeOf s shared settings) settings request).1,
            (perform s (storeOf s shared settings) settings request).2.after items)) ∨
    ((∀ settings, (loadSettings s shared.settingsFile).2.toOption = some settings →
        command.read? behind = none) ∧ (runCommand s shared command behind).1 = s) := by
  have hstart : startLog s shared.logFile = .ok s := by rw [hfile]; rfl
  rw [runCommand, hstart]
  rcases hload : loadSettings s shared.settingsFile with ⟨items, failure | settings⟩
  · exact .inr ⟨fun _ h => (by cases h), by simp only [hload]⟩
  · cases hrequest : command.read? behind with
    | none => exact .inr ⟨fun _ _ => rfl, by simp only [hload]⟩
    | some request => exact .inl ⟨items, settings, request, rfl, rfl, by simp only [hload]⟩

/-- A run performs the request of a command line that is understood, and changes nothing where
there is none. -/
theorem run_cases (hlog : opensLog words = false) :
    (∃ v, invocation? s words = some v ∧
      run s words = ((v.perform s).1, v.report (v.perform s).2)) ∨
    (invocation? s words = none ∧ (run s words).1 = s) := by
  -- the cases are the steps of a run, each of which may end it before anything is performed
  cases hwords : Words.read? sharedRules true words with
  | none => exact .inr (by simp [invocation?, Option.filter, run, hwords])
  | some w =>
    have hhas : w.has "--log-file" = false := by simpa [opensLog, hwords] using hlog
    cases hown : ownReport? w with
    | some report => exact .inr (by simp [invocation?, Option.filter, run, hwords, hown])
    | none =>
      cases hshared : Shared.ofWords? s w with
      | none => exact .inr (by simp [invocation?, Option.filter, run, hwords, hown, hshared])
      | some shared =>
        cases hcommand : commandOf? w.operands with
        | none =>
          exact .inr (by simp [invocation?, Option.filter, run, hwords, hown, hshared, hcommand])
        | some named =>
          obtain ⟨command, behind⟩ := named
          have hfile := logFile_of_ofWords? hhas hshared
          have hrun : run s words = ((runCommand s shared command behind).1,
              (runCommand s shared command behind).2.report shared.threshold) := by
            simp [run, hwords, hown, hshared, hcommand, fillLog, hfile]
          rcases runCommand_cases (s := s) hfile command behind with
            ⟨items, settings, request, hload, hrequest, hcome⟩ | ⟨hnone, hcome⟩
          · refine .inl ⟨⟨shared.threshold, items, settings, storeOf s shared settings, request⟩,
              ?_, ?_⟩
            · simp [invocation?, Option.filter, hwords, hown, hshared, hcommand, hload, hrequest,
                Except.toOption]
            · rw [hrun, hcome]
              rfl
          · refine .inr ⟨?_, by rw [hrun, hcome]⟩
            cases hsettings : (loadSettings s shared.settingsFile).2.toOption with
            | none =>
              simp [invocation?, Option.filter, hwords, hown, hshared, hcommand, hsettings]
            | some settings =>
              simp [invocation?, Option.filter, hwords, hown, hshared, hcommand,
                hnone settings hsettings]

theorem run_of_invocation (hlog : opensLog words = false) (hv : invocation? s words = some v) :
    run s words = ((v.perform s).1, v.report (v.perform s).2) := by
  rcases run_cases (s := s) hlog with ⟨other, hother, hrun⟩ | ⟨hnone, -⟩
  · obtain rfl : v = other := Option.some.inj (hv.symm.trans hother)
    exact hrun
  · rw [hv] at hnone
    cases hnone

theorem exists_command_of_invocation (h : invocation? s words = some v) :
    ∃ name command behind, commandName? words = some name ∧
      Command.all.lookup name = some command ∧ command.read? behind = some v.request := by
  simp only [invocation?, Option.bind_eq_bind, Option.bind_eq_some_iff, Option.filter_eq_some_iff]
    at h
  obtain ⟨w, ⟨hwords, -⟩, shared, -, ⟨command, behind⟩, hcommand, settings, -, request, hrequest,
    hv⟩ := h
  cases hv
  cases hoperands : w.operands with
  | nil => rw [hoperands] at hcommand; cases hcommand
  | cons name rest =>
    rw [hoperands, commandOf?, Option.map_eq_some_iff] at hcommand
    obtain ⟨found, hlookup, hfound⟩ := hcommand
    cases hfound
    exact ⟨name, command, behind, by simp [commandName?, hwords, hoperands], hlookup, hrequest⟩

/-! ## Requests that only ask -/

/-- The names of the commands that only ask. -/
def askingNames : List String := ["query", "types", "show", "list"]

/-- Whether a request only asks. -/
def Request.asks : Request → Bool
  | .help | .query .. | .types .. | .describe .. | .list => true
  | .analyze .. | .clear => false

theorem perform_of_asks {store : Store} {settings : Settings} {request : Request}
    (h : request.asks = true) : (perform s store settings request).1 = s := by
  cases request with
  | analyze => cases h
  | clear => cases h
  | _ => rfl

theorem Command.asks_of_read? {c : Command} {request : Request}
    (hc : ∀ w made, c.request? w = some made → made.asks = true)
    (h : c.read? words = some request) : request.asks = true := by
  rw [Command.read?, Option.bind_eq_some_iff] at h
  obtain ⟨w, -, hw⟩ := h
  split at hw
  · cases hw
    rfl
  · exact hc w request hw

theorem asks_of_lookup {name : String} {command : Command} {request : Request}
    (hname : name ∈ askingNames) (hlookup : Command.all.lookup name = some command)
    (h : command.read? words = some request) : request.asks = true := by
  refine Command.asks_of_read? (fun w made hmade => ?_) h
  simp only [askingNames, List.mem_cons, List.not_mem_nil, or_false] at hname
  rcases hname with rfl | rfl | rfl | rfl <;> cases hlookup
  · obtain ⟨typeName, -, rfl⟩ := Option.map_eq_some_iff.mp hmade
    rfl
  · obtain ⟨-, hmade⟩ := Option.ite_none_right_eq_some.mp hmade
    cases hmade
    rfl
  · obtain ⟨typeName, -, rfl⟩ := Option.map_eq_some_iff.mp hmade
    rfl
  · obtain ⟨-, hmade⟩ := Option.ite_none_right_eq_some.mp hmade
    cases hmade
    rfl

/-- The commands that only ask leave the session as it is, whatever their options. -/
theorem run_of_asking (hlog : opensLog words = false) {name : String}
    (hname : commandName? words = some name) (hasking : name ∈ askingNames) :
    (run s words).1 = s := by
  rcases run_cases (s := s) hlog with ⟨v, hv, hrun⟩ | ⟨-, hsame⟩
  · obtain ⟨other, command, behind, hother, hlookup, hrequest⟩ := exists_command_of_invocation hv
    obtain rfl : name = other := Option.some.inj (hname.symm.trans hother)
    rw [hrun]
    exact perform_of_asks (asks_of_lookup hasking hlookup hrequest)
  · exact hsame

/-! ## Requests about a stored analysis -/

/-- What a request about a stored analysis asks for: a schema, and an answer from its analysis. -/
def Request.inquiry? : Request → Option (Option String × (Analysis → Outcome))
  | .query schema question countOnly asJson => some (schema, queryAnswer question countOnly asJson)
  | .types schema asJson => some (schema, typesAnswer asJson)
  | .describe schema typeName asJson => some (schema, describeAnswer typeName asJson)
  | _ => none

theorem perform_of_inquiry {store : Store} {settings : Settings} {request : Request}
    {schema : Option String} {answer : Analysis → Outcome}
    (h : request.inquiry? = some (schema, answer)) :
    perform s store settings request = (s, fromStored s store schema answer) := by
  cases request with
  | query => cases h; rfl
  | types => cases h; rfl
  | describe => cases h; rfl
  | _ => cases h

/-! ## Analyzing -/

/-- The schema at a path as it stands: its text, and the document that the text holds. -/
structure Finds (s : Session) (schema text : String) (document : Document) : Prop where
  there : (s.status? schema).isSome = true
  source : Schema.source s.files s.folder (.ofLocation (s.resolve schema)) = .ok text
  read : Document.read text = .ok document

/-- The label of a schema: the given one unless it is missing or empty, else the configured one
unless that is, else the one that the schema gives itself. -/
def chosenLabel (given configured : Option String) (source identifier : String) : String :=
  ((Registry.nonEmpty? given).or (Registry.nonEmpty? configured)).getD
    (Schema.label source identifier)

theorem labelFor_eq_chosenLabel (given : Option String) (settings : Settings)
    (source identifier : String) :
    Analysis.labelFor (labelFor given settings) source identifier =
      chosenLabel given settings.subgraph source identifier := by
  rw [labelFor, chosenLabel]
  cases hgiven : Registry.nonEmpty? given with
  | none => rfl
  | some label =>
    have hlabel : Registry.nonEmpty? (some label) = some label := by
      obtain ⟨rfl, hne⟩ := Option.filter_eq_some_iff.mp hgiven
      exact Option.filter_eq_some_iff.mpr ⟨rfl, hne⟩
    simp [Analysis.labelFor, hlabel]

variable {store : Store} {settings : Settings} {schema : String} {force : Bool}
  {subgraph : Option String}

/-- A stored analysis is not made again unless that is forced. -/
theorem analyze_of_stored (h : store.has s.files (s.identifier schema) = true) :
    (analyze s store settings schema false subgraph).1 = s := by
  rw [analyze]
  split
  · rfl
  · rw [if_pos (by simp [h])]

theorem ofPath_of_finds {text : String} {document : Document} (h : Finds s schema text document)
    (label : Option String) (now : Instant) :
    Analysis.ofPath s.files s.folder (.ofText schema) label now =
      .ok (.ofDocument document (s.identifier schema)
        (Analysis.labelFor label text (s.identifier schema)) now) := by
  have hsource : Schema.source s.files s.folder
      (.ofLocation ((FilePath.ofText schema).resolve s.folder)) = .ok text := h.source
  simp only [Analysis.ofPath, hsource, Analysis.ofSource, h.read, Except.map]
  rfl

theorem exists_finds_of_ofPath {label : Option String} {now : Instant} {a : Analysis}
    (hthere : (s.status? schema).isSome = true)
    (h : Analysis.ofPath s.files s.folder (.ofText schema) label now = .ok a) :
    ∃ text document, Finds s schema text document := by
  rw [Analysis.ofPath] at h
  cases hsource : Schema.source s.files s.folder
      (.ofLocation ((FilePath.ofText schema).resolve s.folder)) with
  | error fault => simp [hsource] at h
  | ok text =>
    cases hread : Document.read text with
    | error fault => simp [hsource, Analysis.ofSource, hread, Except.map] at h
    | ok document => exact ⟨text, document, hthere, hsource, hread⟩

theorem keep_fst (a : Analysis) :
    (keep s store a).1 = { s with files := (store.put s.files a).1 } := by
  rw [keep]
  rcases store.put s.files a with ⟨files, fault | ok⟩ <;> rfl

/-- An analysis that is made is the one of the schema as it stands, and is to be kept. -/
theorem analyze_of_finds {text : String} {document : Document} (h : Finds s schema text document)
    (hanew : force = true ∨ store.has s.files (s.identifier schema) = false) :
    (analyze s store settings schema force subgraph).1 =
      { s with
        files := (store.put s.files (.ofDocument document (s.identifier schema)
          (chosenLabel subgraph settings.subgraph text (s.identifier schema)) s.now)).1
        now := s.now.next } := by
  have hthere : (s.status? schema).isNone = false := by simpa using h.there
  have hagain : (store.has s.files (s.identifier schema) && !force) = false := by
    rcases hanew with rfl | hnew
    · exact Bool.and_false _
    · rw [hnew, Bool.false_and]
  simp only [analyze, hthere, hagain, analyzeAnew, ofPath_of_finds h, keep_fst,
    labelFor_eq_chosenLabel, Bool.false_eq_true, if_false]

/-- A schema that is not there, not to be read or not a document is not analyzed. -/
theorem analyze_of_not_finds (h : ¬ ∃ text document, Finds s schema text document) :
    (analyze s store settings schema force subgraph).1 = s := by
  rw [analyze]
  split
  · rfl
  · rename_i hthere
    split
    · rfl
    · rw [analyzeAnew]
      cases hmade : Analysis.ofPath s.files s.folder (.ofText schema) (labelFor subgraph settings)
          s.now with
      | error fault => rfl
      | ok a =>
        refine absurd (exists_finds_of_ofPath ?_ hmade) h
        simpa [Option.isSome_iff_ne_none] using hthere

/-! ## What a run can do -/

/-- A request that analyzes the schema with an identifier: the analysis that it makes is the one of
the schema as it stands, dated with the session's instant. -/
inductive Analyzes (s : Session) (v : Invocation) : String → Analysis → Prop
  | intro {schema : String} {force : Bool} {subgraph : Option String} {text : String}
      {document : Document} (request : v.request = .analyze schema force subgraph)
      (finds : Finds s schema text document)
      (anew : force = true ∨ v.store.has s.files (s.identifier schema) = false) :
      Analyzes s v (s.identifier schema) (.ofDocument document (s.identifier schema)
        (chosenLabel subgraph v.settings.subgraph text (s.identifier schema)) s.now)

theorem Analyzes.schemaIdentifier {id : String} {a : Analysis} (h : Analyzes s v id a) :
    a.metadata.schemaIdentifier = id := by
  cases h
  rfl

theorem Analyzes.perform {id : String} {a : Analysis} (h : Analyzes s v id a) :
    (v.perform s).1 =
      { s with
        files := (v.store.put s.files a).1
        now := s.now.next } := by
  cases h with
  | intro request finds anew =>
    rw [Invocation.perform, request]
    exact analyze_of_finds finds anew

theorem clear_fst : (clear s store).1 = { s with files := (store.clear s.files).1 } := by
  rw [clear]
  rcases store.clear s.files with ⟨files, fault | ok⟩ <;> rfl

/-- A request leaves the session as it is, keeps an analysis that it makes, or clears the store. -/
theorem Invocation.perform_cases (v : Invocation) (s : Session) :
    (v.perform s).1 = s ∨
    (∃ id a, Analyzes s v id a ∧
      (v.perform s).1 =
        { s with
          files := (v.store.put s.files a).1
          now := s.now.next }) ∨
    (v.request = .clear ∧ (v.perform s).1 = { s with files := (v.store.clear s.files).1 }) := by
  cases hrequest : v.request with
  | analyze schema force subgraph =>
    by_cases hfinds : ∃ text document, Finds s schema text document
    · obtain ⟨text, document, hfinds⟩ := hfinds
      by_cases hanew : force = true ∨ v.store.has s.files (s.identifier schema) = false
      · have hanalyzes := Analyzes.intro hrequest hfinds hanew
        exact .inr (.inl ⟨_, _, hanalyzes, hanalyzes.perform⟩)
      · simp only [not_or, Bool.not_eq_true, Bool.not_eq_false] at hanew
        obtain ⟨rfl, hstored⟩ := hanew
        refine .inl ?_
        rw [Invocation.perform, hrequest]
        exact analyze_of_stored hstored
    · refine .inl ?_
      rw [Invocation.perform, hrequest]
      exact analyze_of_not_finds hfinds
  | clear =>
    refine .inr (.inr ⟨rfl, ?_⟩)
    rw [Invocation.perform, hrequest]
    exact clear_fst
  | _ =>
    refine .inl (perform_of_asks ?_)
    rw [hrequest]
    rfl

end FederationGraph.CommandLine
