-- What the arguments of the command line ask for. The known options are taken out wherever they
-- stand; the first argument that is left is the file.

namespace WikiHtml.CommandLine

/-- A page that is to be rendered: the files of the settings and of the page, the folder of the
stored pages, and whether there may be links to the editor. -/
structure PageRequest where
  config : Option String
  pages : Option String
  editLinks : Bool
  file : String
  deriving DecidableEq, Repr

/-- What the program is asked for. -/
inductive Request where
  | help
  | highlight (language file : String)
  | page (request : PageRequest)
  deriving DecidableEq, Repr

/-- What is wrong with the arguments. -/
inductive UsageFault where
  | noValue (option : String)
  | noPageFile
  | noCodeFile
  | extraArguments
  deriving DecidableEq, Repr

namespace UsageFault

/-- The text of a fault. -/
def message : UsageFault → String
  | .noValue option => "the '" ++ option ++ "' option doesn't have an associated value"
  | .noPageFile => "Missing page file argument"
  | .noCodeFile => "Missing file argument"
  | .extraArguments => "Unknown extra arguments passed"

/-- Whether the usage is shown at a fault. -/
def showsUsage : UsageFault → Bool
  | .noValue _ => false
  | _ => true

end UsageFault

/-! ## Taking arguments out -/

/-- Whether a flag is there, and the arguments without the first one of it. -/
def takeFlag (flag : String) (args : List String) : Bool × List String :=
  (args.contains flag, args.erase flag)

/-- The value after an option, if the option is there, and the arguments without both. -/
def takeValue (option : String) : List String → Except UsageFault (Option String × List String)
  | [] => .ok (none, [])
  | arg :: rest =>
    if arg = option then
      match rest with
      | value :: rest => .ok (some value, rest)
      | [] => .error (.noValue option)
    else do
      let (value, rest) ← takeValue option rest
      return (value, arg :: rest)

/-- The only argument that is left. -/
def takeOnly (ifNone : UsageFault) : List String → Except UsageFault String
  | [] => .error ifNone
  | [file] => .ok file
  | _ => .error .extraArguments

/-! ## Requests -/

/-- The request for a page, where `config` is the file of the settings if no option names it. -/
def PageRequest.parse (config : Option String) (args : List String) :
    Except UsageFault PageRequest := do
  let (named, args) ← takeValue "--config" args
  let (pages, args) ← takeValue "--pages" args
  let (noEditLinks, args) := takeFlag "--no-edit-links" args
  let (_, args) := takeFlag "--" args
  let file ← takeOnly .noPageFile args
  return ⟨named.or config, pages, !noEditLinks, file⟩

/-- The request of the arguments, where `config` is the file of the settings if no option names
it. -/
def Request.parse (config : Option String) (args : List String) : Except UsageFault Request := do
  if args.contains "-h" || args.contains "--help" then return .help
  let (language, rest) ← takeValue "--highlight" args
  match language with
  | some language => return .highlight language (← takeOnly .noCodeFile rest)
  | none => return .page (← PageRequest.parse config rest)

end WikiHtml.CommandLine
