-- Paths of files, and the paths of the pages that files in a folder stand for.

namespace WikiHtml.CommandLine.FilePath

/-! ## Segments -/

/-- The characters up to the next `/`, and those after it. -/
def splitSlash : List Char → List (List Char)
  | [] => [[]]
  | '/' :: rest => [] :: splitSlash rest
  | c :: rest =>
    match splitSlash rest with
    | first :: others => (c :: first) :: others
    | [] => [[c]]

/-- The names between the `/` of a path, empty ones included. -/
def names (path : String) : List String :=
  (splitSlash path.toList).map String.ofList

/-- Whether a path starts at the root of all files. -/
def isRooted (path : String) : Bool :=
  path.toList.head? == some '/'

/-- The segments that say where a path leads. Empty names say nothing, and `.` does so only at the
start; a path from the root of all files has `/` as its first segment. -/
def segments (path : String) : List String :=
  let named := (names path).filter fun name => name ≠ "" && name ≠ "."
  if isRooted path then "/" :: named
  else if (names path).head? = some "." then "." :: named
  else named

/-- The path of a name in a folder. -/
def child (folder name : String) : String :=
  if folder = "" || folder.toList.getLast? = some '/' then folder ++ name else folder ++ "/" ++ name

/-! ## Extensions -/

/-- The parts of a name before and after its last `.`, if both say something about a file: names
that start with their only `.` have no extension. -/
def splitPoint? (name : String) : Option (String × String) :=
  let backwards := name.toList.reverse
  match backwards.dropWhile (· ≠ '.') with
  | '.' :: before =>
    if before = [] || name = ".." then none
    else some (String.ofList before.reverse, String.ofList (backwards.takeWhile (· ≠ '.')).reverse)
  | _ => none

/-- The extension of a name. -/
def extension? (name : String) : Option String :=
  (splitPoint? name).map (·.2)

/-- A name without its extension. Where that would leave only a `.`, which is no name of a file, the
point before the extension stays too. -/
def stem (name : String) : String :=
  match splitPoint? name with
  | some (before, _) => if before = "." then ".." else before
  | none => name

/-! ## Pages -/

/-- The rest of a list of segments after those that it starts with. -/
def after? : List String → List String → Option (List String)
  | [], rest => some rest
  | _ :: _, [] => none
  | a :: first, b :: rest => if a = b then after? first rest else none

/-- Segments of which the last one is without its extension. -/
def withoutExtension (segs : List String) : List String :=
  match segs.reverse with
  | [] => []
  | last :: before => (stem last :: before).reverse

/-- The path of the page that a file in a folder stands for: the rest of its path, without the
extension. -/
def pagePath? (folder file : String) : Option String :=
  (after? (segments folder) (segments file)).map fun rest =>
    "/" ++ "/".intercalate (withoutExtension rest)

end WikiHtml.CommandLine.FilePath
