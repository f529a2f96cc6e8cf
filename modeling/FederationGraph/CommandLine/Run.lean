import FederationGraph.CommandLine.Request
import FederationGraph.CommandLine.Update

/-!
# Runs

A run takes the words of a command line to a report and to the session in which
the next one runs. Words that ask about the program itself come first. Then the
options before the command are checked, the log file is started and the settings
are read, in this order; the options of the command are looked at only after
that.
-/
namespace FederationGraph.CommandLine

open Console

/-- Does what is asked. -/
def perform (s : Session) (store : Store) (settings : Settings) : Request → Session × Outcome
  | .help => (s, .success [.plain Command.helpText])
  | .analyze schema force subgraph => analyze s store settings schema force subgraph
  | .query schema question countOnly asJson =>
    (s, query s store schema question countOnly asJson)
  | .types schema asJson => (s, types s store schema asJson)
  | .describe schema typeName asJson => (s, describe s store schema typeName asJson)
  | .list => (s, list s store)
  | .clear => clear s store

/-! ## Shared options -/

/-- What the options before the command say. -/
structure Shared where
  threshold : Level
  logFile : Option FilePath
  settingsFile : Option FilePath
  cacheDir : Option FilePath
  deriving DecidableEq, Repr, Inhabited

/-- The flag that asks for the version. -/
def versionRule : OptionRule := flag "--version"

/-- The options before the command. -/
def sharedRules : List OptionRule :=
  [Command.helpRule, versionRule, letterValued "--log-level" 'l', valued "--log-file",
    valued "--config", valued "--cache-dir"]

/-- The threshold for messages. -/
def threshold? (word : Option String) : Option Level :=
  match word with
  | none => some .info
  | some word => Level.ofWord? word

/-- The path that an option gives, if it gives one that leads to something fitting. -/
def fittingPath? (s : Session) (fits : Option Node → Bool) (text : Option String) :
    Option (Option FilePath) :=
  match text with
  | none => some none
  | some text => if fits (s.status? text) then some (some (.ofText text)) else none

/-- Whether there is a file. -/
def isFile (node : Option Node) : Bool := node.any fun node => !node.isFolder

/-- Whether there is a file or nothing. -/
def isNoFolder (node : Option Node) : Bool := node.all fun node => !node.isFolder

/-- Whether there is a folder or nothing. -/
def isNoFile (node : Option Node) : Bool := node.all Node.isFolder

/-- Reads the options before the command, unless one has no fitting value. -/
def Shared.ofWords? (s : Session) (w : Words) : Option Shared := do
  let threshold ← threshold? (w.value? "--log-level")
  let logFile ← fittingPath? s isNoFolder (w.value? "--log-file")
  let settingsFile ← fittingPath? s isFile (w.value? "--config")
  let cacheDir ← fittingPath? s isNoFile (w.value? "--cache-dir")
  some ⟨threshold, logFile, settingsFile, cacheDir⟩

/-! ## Command lines -/

/-- The session with an empty log file, if there is to be one. -/
def startLog (s : Session) (path : Option FilePath) : Except FileFault Session :=
  match path with
  | none => .ok s
  | some path => (s.files.write (path.resolve s.folder) "").map fun files => { s with files }

/-- The lines of the log file for items. -/
def logLines (threshold : Level) (items : List Item) : List String :=
  items.filterMap fun item =>
    match item with
    | .message level text =>
      if level.reaches threshold then some (level.word ++ ":" ++ text) else none
    | _ => none

/-- The session with the messages of an outcome in the log file, if that is still there. -/
def fillLog (s : Session) (path : Option FilePath) (threshold : Level) (o : Outcome) : Session :=
  match path.map fun path => path.resolve s.folder with
  | none => s
  | some place =>
    match s.files.node? place with
    | some (.file _) =>
      let text := String.join ((logLines threshold o.items).map (· ++ "\n"))
      { s with files := s.files.put place (.file (.text text)) }
    | _ => s

/-- The message that a settings file is read. -/
def readMessage (path : FilePath) : Item :=
  .message .debug ("Read analyzer config " ++ path.text)

/-- The settings in a file, or the defaults without one, and what there is to print about it. -/
def loadSettings (s : Session) (path : Option FilePath) : List Item × Except Failure Settings :=
  match path with
  | none => ([], .ok Settings.default)
  | some path =>
    match s.files.read (path.resolve s.folder) with
    | .error fault => ([], .error (.settingsFile fault))
    | .ok text =>
      match Settings.read s.homes text with
      | .ok settings => ([readMessage path], .ok settings)
      | .error (.document fault) => ([], .error (.settings (.document fault)))
      | .error fault => ([readMessage path], .error (.settings fault))

/-- Where analyses are stored unless something else is said. -/
def defaultCacheDir (home : FilePath) : FilePath := home.extend [".fgqldeps", "cache"]

/-- The store that options and settings name. -/
def storeOf (s : Session) (shared : Shared) (settings : Settings) : Store :=
  ⟨(shared.cacheDir.or settings.cacheDir).getD (defaultCacheDir s.homes.own), s.folder⟩

/-- Runs a command with the words behind it. -/
def runCommand (s : Session) (shared : Shared) (command : Command) (words : List String) :
    Session × Outcome :=
  match startLog s shared.logFile with
  | .error fault => (s, .failed (.logFile fault))
  | .ok s =>
    match loadSettings s shared.settingsFile with
    | (items, .error failure) => (s, (Outcome.failed failure).after items)
    | (items, .ok settings) =>
      match command.read? words with
      | none => (s, .usage)
      | some request =>
        let (after, outcome) := perform s (storeOf s shared settings) settings request
        (after, outcome.after items)

/-- The text of the version. -/
def versionText : String := "cli, version 0.1.0"

/-- The store that a command line works on, if it says that much. -/
def storeFor? (s : Session) (words : List String) : Option Store := do
  let w ← Words.read? sharedRules true words
  let shared ← Shared.ofWords? s w
  let settings ← (loadSettings s shared.settingsFile).2.toOption
  some (storeOf s shared settings)

/-- The report on options that ask about the program itself; the first one counts. -/
def ownReport? (w : Words) : Option Report :=
  (w.given.find? fun option => [Command.helpRule.name, versionRule.name].contains option.1).map
    fun option =>
      ⟨[if option.1 = versionRule.name then versionText else Command.helpText], .success⟩

/-- The command that operands name, and the words behind it. -/
def commandOf? : List String → Option (Command × List String)
  | [] => none
  | name :: words => (Command.all.lookup name).map fun command => (command, words)

/-- Runs a command line. -/
def run (s : Session) (words : List String) : Session × Report :=
  match Words.read? sharedRules true words with
  | none => (s, ⟨[], .usage⟩)
  | some w =>
    match ownReport? w with
    | some report => (s, report)
    | none =>
      match Shared.ofWords? s w, commandOf? w.operands with
      | some shared, some (command, words) =>
        let (after, outcome) := runCommand s shared command words
        (fillLog after shared.logFile shared.threshold outcome, outcome.report shared.threshold)
      | _, _ => (s, ⟨[], .usage⟩)

end FederationGraph.CommandLine
