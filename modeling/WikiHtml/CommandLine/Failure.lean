-- Why the program ends without a result, and how it says so: a text for what it was about to do,
-- and below it the texts of the causes.
import WikiHtml.CommandLine.Disk
import WikiHtml.CommandLine.Request
import WikiHtml.Tree.Decode

namespace WikiHtml.CommandLine

/-- Why there are no settings. -/
inductive SettingsFault where
  | unreadable (fault : FileFault)
  | invalid
  deriving DecidableEq, Repr

/-- Why there is no page. -/
inductive PageFault where
  | unopened (fault : FileFault)
  | unreadable (fault : FileFault)
  | undecoded (fault : Tree.DecodeError)
  deriving DecidableEq, Repr

/-- Why the program ends without a result. -/
inductive Failure where
  | usage (fault : UsageFault)
  | settings (file : String) (fault : SettingsFault)
  | page (file : String) (fault : PageFault)
  | folder (path : String) (fault : FileFault)
  | code (file : String) (fault : FileFault)
  | tooManyDays
  | noRoot
  deriving DecidableEq, Repr

/-- The texts of the causes. -/
def SettingsFault.causes : SettingsFault → List String
  | .unreadable fault => ["could not read settings: " ++ fault.message, fault.message]
  | .invalid => ["invalid settings"]

/-- The texts of the causes, and before them what could not be done with the file. -/
def PageFault.texts (file : String) : PageFault → List String
  | .unopened fault => ["could not open " ++ file, fault.message]
  | .unreadable fault =>
    ["could not decode " ++ file, "invalid tree json: " ++ fault.message, fault.message]
  | .undecoded (.span bad) => ["could not decode " ++ file, Tree.spanMessage bad]
  | .undecoded .json => ["could not decode " ++ file, "invalid tree json"]

namespace Failure

/-- The texts of a failure, the last cause at the end. -/
def texts : Failure → List String
  | .usage fault => [fault.message]
  | .settings file fault => ("could not load settings from " ++ file) :: fault.causes
  | .page file fault => fault.texts file
  | .folder path fault => ["could not read " ++ path, fault.message]
  | .code file fault => ["could not read " ++ file, fault.message]
  | .tooManyDays => ["overflow in a number of days"]
  | .noRoot => ["Page tree has no root"]

/-- The exit code of the program. -/
def exitCode : Failure → Nat
  | .tooManyDays => 101
  | _ => 1

/-- A cause in its line, with its number. -/
def numbered (cause : String × Nat) : String :=
  "    " ++ toString cause.2 ++ ": " ++ cause.1 ++ "\n"

/-- The causes below a failure; a single one has no number. -/
def causeLines : List String → String
  | [] => ""
  | [cause] => "\nCaused by:\n    " ++ cause ++ "\n"
  | causes => "\nCaused by:\n" ++ String.join (causes.zipIdx.map numbered)

/-- What the program says about a failure. -/
def report (failure : Failure) : String :=
  match failure.texts with
  | [] => ""
  | what :: causes => "Error: " ++ what ++ "\n" ++ causeLines causes

/-- A failure in one line. -/
def line (failure : Failure) : String :=
  ": ".intercalate failure.texts

end Failure

end WikiHtml.CommandLine
