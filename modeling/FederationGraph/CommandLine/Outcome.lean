import FederationGraph.Console.Item
import FederationGraph.Settings
import FederationGraph.Store.Basic

/-!
# Outcomes

A command runs in a session: the files of the machine, the folder it is called
in, the home folders, and the instant that the next analysis is dated with. It
comes to an outcome, which is what there is to print and how the run ends. The
report of a run holds the printed lines. Where a text cannot be printed because
of its tags, the run fails there.
-/
namespace FederationGraph.CommandLine

open Console

/-- Where commands run. -/
structure Session where
  files : FileTree
  folder : Location
  homes : Homes
  now : Instant
  deriving Inhabited

/-- Why a run fails. -/
inductive Failure where
  | logFile (fault : FileFault)
  | settingsFile (fault : FileFault)
  | settings (fault : SettingsFault)
  | schemaFile (fault : FileFault)
  | store (fault : StoreFault)
  | tags
  deriving DecidableEq, Repr, Inhabited

/-- What comes before the reason why settings are not used. -/
def settingsMessage (reason : String) : String := "Invalid config file: " ++ reason

/-- The wording of a failure. -/
def Failure.message : Failure → String
  | .logFile fault => fault.message
  | .settingsFile fault => settingsMessage fault.message
  | .settings fault => settingsMessage fault.message
  | .schemaFile fault => fault.message
  | .store fault => fault.message
  | .tags => "A closing tag does not match any open tag"

/-- How a run ends: well, with a command line that is not understood, after a message about an
error, or with a failure. -/
inductive Ending where
  | success
  | usage
  | stopped
  | failed (failure : Failure)
  deriving DecidableEq, Repr, Inhabited

/-- The exit code of an ending. -/
def Ending.code : Ending → Nat
  | .success => 0
  | .usage => 2
  | .stopped => 1
  | .failed _ => 1

/-- What a command comes to. -/
structure Outcome where
  items : List Item
  ending : Ending
  deriving DecidableEq, Repr, Inhabited

namespace Outcome

/-- The outcome of a command that does its work. -/
def success (items : List Item) : Outcome := ⟨items, .success⟩

/-- The outcome where the command line is not understood. -/
def usage : Outcome := ⟨[], .usage⟩

/-- The outcome that ends with a message about an error. -/
def stopped (message : String) : Outcome := ⟨[.message .error message], .stopped⟩

/-- The outcome that prints nothing and fails. -/
def failed (failure : Failure) : Outcome := ⟨[], .failed failure⟩

/-- The outcome with further items in front. -/
def after (items : List Item) (o : Outcome) : Outcome := ⟨items ++ o.items, o.ending⟩

end Outcome

/-- What a run printed, and how it ended. -/
structure Report where
  lines : List String
  ending : Ending
  deriving DecidableEq, Repr, Inhabited

/-- The report of an outcome whose messages are printed from a threshold on. -/
def Outcome.report (threshold : Level) (o : Outcome) : Report :=
  match print threshold o.items with
  | (lines, true) => ⟨lines, o.ending⟩
  | (lines, false) => ⟨lines, .failed .tags⟩

namespace Session

/-- What a text leads to as a path, if anything. -/
def status? (s : Session) (text : String) : Option Node := s.files.status? s.folder text

/-- The location of a path. -/
def resolve (s : Session) (text : String) : Location := (FilePath.ofText text).resolve s.folder

/-- The identifier of the schema at a path. -/
def identifier (s : Session) (text : String) : String := (s.resolve text).text

end Session

end FederationGraph.CommandLine
