-- The files that a program can read. What reading means is left open, so that the same program runs
-- on real files and on files that are no more than a list of names and texts.
import WikiHtml.CommandLine.FilePath

namespace WikiHtml.CommandLine

/-- Why a file or folder cannot be read. -/
inductive FileFault where
  | missing
  | denied
  | notFolder
  | isFolder
  | notText
  | other (text : String)
  deriving DecidableEq, Repr

/-- The text of a fault. -/
def FileFault.message : FileFault → String
  | .missing => "No such file or directory (os error 2)"
  | .denied => "Permission denied (os error 13)"
  | .notFolder => "Not a directory (os error 20)"
  | .isFolder => "Is a directory (os error 21)"
  | .notText => "stream did not contain valid UTF-8"
  | .other text => text

/-- Files and folders by their paths: the text of a file, the names in a folder, and whether there
is a folder. -/
structure Disk (m : Type → Type) where
  read : String → m (Except FileFault String)
  list : String → m (Except FileFault (List String))
  hasFolder : String → m Bool

namespace Disk

/-! ## A list of files -/

/-- What is found at a place of a list of files. -/
inductive Entry where
  | file (text : String)
  | folder (names : List String)
  deriving DecidableEq, Repr

/-- Whether a place is the top, a folder that the top is in, or the root of all files. -/
def isSurrounding (place : List String) : Bool :=
  place = ["/"] || place.all (· = "..")

/-- The place of the folder that a place is in. -/
def above (place : List String) : List String :=
  if place = ["/"] then place
  else if isSurrounding place then place ++ [".."]
  else place.dropLast

/-- What a list of files, given by the names on the way to each, has at a place. There is a folder
where there is a file below it, and there are the folders around all files. -/
def entryAt? (files : List (List String × String)) (place : List String) : Option Entry :=
  match files.lookup place with
  | some text => some (.file text)
  | none =>
    let below := files.filterMap fun (way, _) => (FilePath.after? place way).bind List.head?
    if below = [] && !isSurrounding place then none else some (.folder below.eraseDups)

/-- The place that is found by going on from a folder by names, and what is there. -/
def follow (files : List (List String × String)) (place : List String) :
    List String → Except FileFault Entry
  | [] =>
    match entryAt? files place with
    | some entry => .ok entry
    | none => .error .missing
  | name :: rest =>
    match entryAt? files place with
    | none => .error .missing
    | some (.file _) => .error .notFolder
    | some (.folder _) =>
      if name = "" || name = "." then follow files place rest
      else if name = ".." then follow files (above place) rest
      else follow files (place ++ [name]) rest

/-- What a list of files has at a path. -/
def find (files : List (List String × String)) (path : String) : Except FileFault Entry :=
  if path = "" then .error .missing
  else follow files (if FilePath.isRooted path then ["/"] else []) (FilePath.names path)

/-- The text of the file at a path. -/
def readIn (files : List (List String × String)) (path : String) : Except FileFault String := do
  match ← find files path with
  | .file text => return text
  | .folder _ => throw .isFolder

/-- The names in the folder at a path. -/
def listIn (files : List (List String × String)) (path : String) :
    Except FileFault (List String) := do
  match ← find files path with
  | .file _ => throw .notFolder
  | .folder names => return names

/-- The disk that holds files with the given paths and texts, and nothing else. -/
def ofFiles (files : List (String × String)) : Disk Id :=
  let placed := files.map fun (path, text) => (FilePath.segments path, text)
  { read := readIn placed
    list := listIn placed
    hasFolder := fun path => (listIn placed path).toBool }

end Disk

end WikiHtml.CommandLine
