-- Taking values of known shape out of JSON: texts, numbers in a range, and the fields of a record.
-- All of it fails with `none` on any other shape.
import WikiHtml.Json

namespace WikiHtml.Json

/-! ## Single values -/

/-- A reader for values of one shape. -/
abbrev Decoder (α : Type) := Json → Option α

/-- A text. -/
def text? : Decoder String
  | .string text => text
  | _ => none

/-- A truth value. -/
def bool? : Decoder Bool
  | .bool value => some value
  | _ => none

/-- A natural number below the limit, written as digits alone. -/
def natBelow? (limit : Nat) : Decoder Nat
  | .number n => n.nat?.filter (· < limit)
  | _ => none

/-- A value of the given shape, or null. -/
def nullable? (decode : Decoder α) : Decoder (Option α)
  | .null => some none
  | json => (decode json).map some

/-- An array of values of the given shape. -/
def array? (decode : Decoder α) : Decoder (List α)
  | .array items => items.mapM decode
  | _ => none

/-- Puts a value under a key: at the place of the key if it is there, else at the end. -/
def putText (pairs : List (String × String)) (key value : String) : List (String × String) :=
  if pairs.any (·.1 == key) then pairs.map fun p => if p.1 == key then (key, value) else p
  else pairs ++ [(key, value)]

/-- An object of texts. A key that comes again keeps its place and takes the later value. -/
def texts? : Decoder (List (String × String))
  | .object members => members.foldlM (fun pairs (key, value) => do
      return putText pairs (← key) (← value.text?)) []
  | _ => none

/-! ## Records -/

/-- The members of an object. -/
abbrev Members := List (Option String × Json)

/-- The members of a record written as an array of its first fields, at least `required` of them. -/
def positional? (names : List String) (required : Nat) (items : List Json) : Option Members :=
  if required ≤ items.length && items.length ≤ names.length then
    some ((names.map some).zip items)
  else none

/-- The members of a record written as an object, or as an array of its first fields. -/
def record? (names : List String) (required : Nat) : Decoder Members
  | .object members => some members
  | .array items => positional? names required items
  | _ => none

/-- The value of a field, or nothing if it is missing. A field that comes twice is a failure. -/
def field? (members : Members) (name : String) : Option (Option Json) :=
  match members.filter (·.1 == some name) with
  | [] => some none
  | [(_, value)] => some (some value)
  | _ => none

/-- A field that has to be there. -/
def required? (members : Members) (name : String) (decode : Decoder α) : Option α := do
  decode (← ← field? members name)

/-- A field that may be missing or null. -/
def optional? (members : Members) (name : String) (decode : Decoder α) : Option (Option α) := do
  match ← field? members name with
  | some value => nullable? decode value
  | none => return none

/-- A field that may be missing, with the value that it has then. -/
def defaulted? (members : Members) (name : String) (decode : Decoder α) (default : α) :
    Option α := do
  match ← field? members name with
  | some value => decode value
  | none => return default

end WikiHtml.Json
