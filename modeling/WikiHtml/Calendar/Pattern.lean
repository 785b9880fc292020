-- Patterns that say how a moment is shown. Text outside brackets stands for itself; brackets hold
-- the name of a component and its modifiers, such as `[day padding:none]`. Further patterns may
-- stand in brackets too, behind the modifiers, but nothing that a moment has takes any.
import WikiHtml.Calendar.Date

namespace WikiHtml.Calendar

/-- A day and a time of day. -/
structure Moment where
  date : Date
  hour : Nat
  minute : Nat
  second : Nat
  nanosecond : Nat

/-! ## Components -/

/-- What a number is filled up with. -/
inductive Padding where
  | zero
  | space
  | none
  deriving DecidableEq, Repr

/-- A number filled up to a width. -/
def Padding.apply (p : Padding) (width n : Nat) : String :=
  match p with
  | .zero => Text.padded '0' width n
  | .space => Text.padded ' ' width n
  | .none => toString n

/-- How much of a year is shown. -/
inductive YearPart where
  | full
  | century
  | lastTwo
  deriving DecidableEq, Repr

/-- How a month is shown. -/
inductive MonthForm where
  | number
  | long
  | short
  deriving DecidableEq, Repr

/-- How a day of the week is shown: by its name, or counted from a day of the week. -/
inductive WeekdayForm where
  | long
  | short
  | fromSunday
  | fromMonday
  deriving DecidableEq, Repr

/-- How weeks are counted: as those of their Thursday, or from the first Sunday or Monday on. -/
inductive WeekForm where
  | iso
  | fromSunday
  | fromMonday
  deriving DecidableEq, Repr

/-- A part of a moment. -/
inductive Component where
  | day (padding : Padding)
  | month (padding : Padding) (form : MonthForm)
  | year (padding : Padding) (part : YearPart) (ofWeek : Bool) (sign : Bool)
  | weekday (form : WeekdayForm) (fromOne : Bool)
  | weekNumber (padding : Padding) (form : WeekForm)
  | ordinal (padding : Padding)
  | hour (padding : Padding) (twelve : Bool)
  | minute (padding : Padding)
  | second (padding : Padding)
  | subsecond (digits : Option Nat)
  | period (upper : Bool)
  | nothing
  deriving DecidableEq, Repr

/-- The names of the months. -/
def monthNames : List String :=
  ["January", "February", "March", "April", "May", "June", "July", "August", "September",
   "October", "November", "December"]

/-- The names of the days of the week, from Monday. -/
def weekdayNames : List String :=
  ["Monday", "Tuesday", "Wednesday", "Thursday", "Friday", "Saturday", "Sunday"]

/-- The first three letters of a name. -/
def shortName (name : String) : String :=
  String.ofList (name.toList.take 3)

/-- A year, or the part of it that is asked for. -/
def yearText (year : Int) (padding : Padding) (part : YearPart) (sign : Bool) : String :=
  let mark := if year < 0 then "-" else if sign then "+" else ""
  match part with
  | .full => mark ++ padding.apply 4 year.natAbs
  | .century => mark ++ padding.apply 2 (year.natAbs / 100)
  | .lastTwo => padding.apply 2 (year.natAbs % 100)

/-- A day of the week. -/
def weekdayText (d : Date) (form : WeekdayForm) (fromOne : Bool) : String :=
  let name := weekdayNames[d.daysSinceMonday]?.getD ""
  let shift := if fromOne then 1 else 0
  match form with
  | .long => name
  | .short => shortName name
  | .fromSunday => toString (d.daysSinceSunday + shift)
  | .fromMonday => toString (d.daysSinceMonday + shift)

/-- The number of the week of a day. -/
def weekText (d : Date) (padding : Padding) (form : WeekForm) : String :=
  match form with
  | .iso => padding.apply 2 d.isoWeek.2
  | .fromSunday => padding.apply 2 ((d.ordinal + 6 - d.daysSinceSunday) / 7)
  | .fromMonday => padding.apply 2 ((d.ordinal + 6 - d.daysSinceMonday) / 7)

/-- The digits of a fraction without the zeros at its end, of which one digit stays. -/
def withoutEndZeros (digits : List Char) : List Char :=
  match (digits.reverse.dropWhile (· == '0')).reverse with
  | [] => ['0']
  | kept => kept

/-- The digits after the point of the seconds, so many of them or as many as needed. -/
def subsecondText (nanosecond : Nat) (count : Option Nat) : String :=
  let digits := (Text.padded '0' 9 nanosecond).toList
  match count with
  | some count => String.ofList (digits.take count)
  | none => String.ofList (withoutEndZeros digits)

/-- The half of the day. -/
def periodText (hour : Nat) (upper : Bool) : String :=
  match decide (hour < 12), upper with
  | true, true => "AM"
  | true, false => "am"
  | false, true => "PM"
  | false, false => "pm"

/-- A part of a moment as text. -/
def Component.text (m : Moment) : Component → String
  | .day padding => padding.apply 2 m.date.day
  | .month padding form =>
    let name := monthNames[m.date.month - 1]?.getD ""
    match form with
    | .number => padding.apply 2 m.date.month
    | .long => name
    | .short => shortName name
  | .year padding part ofWeek sign =>
    yearText (if ofWeek then m.date.isoWeek.1 else m.date.year) padding part sign
  | .weekday form fromOne => weekdayText m.date form fromOne
  | .weekNumber padding form => weekText m.date padding form
  | .ordinal padding => padding.apply 3 m.date.ordinal
  | .hour padding twelve => padding.apply 2 (if twelve then (m.hour + 11) % 12 + 1 else m.hour)
  | .minute padding => padding.apply 2 m.minute
  | .second padding => padding.apply 2 m.second
  | .subsecond digits => subsecondText m.nanosecond digits
  | .period upper => periodText m.hour upper
  | .nothing => ""

/-! ## Reading components -/

/-- The modifiers of a component, keys and values in lower case. -/
abbrev Modifiers := List (String × String)

/-- The value of a modifier. Each one with the key has to name a value, and the last one counts. -/
def modifier? (modifiers : Modifiers) (key : String) (values : List (String × α)) (standard : α) :
    Option α := do
  let found ← (modifiers.filter (·.1 == key)).mapM fun (_, value) => values.lookup value
  return found.getLast?.getD standard

/-- Fails for a modifier that the component does not have. -/
def onlyKeys (modifiers : Modifiers) (keys : List String) : Option Unit :=
  if modifiers.all fun (key, _) => keys.contains key then some () else none

/-- The padding of a component. -/
def padding? (modifiers : Modifiers) : Option Padding :=
  modifier? modifiers "padding" [("zero", .zero), ("space", .space), ("none", .none)] .zero

/-- A modifier that is on or off. -/
def switch? (modifiers : Modifiers) (key : String) (standard : Bool) : Option Bool :=
  modifier? modifiers key [("true", true), ("false", false)] standard

/-- Whether a sign is always written. -/
def sign? (modifiers : Modifiers) : Option Bool :=
  modifier? modifiers "sign" [("automatic", false), ("mandatory", true)] false

/-- The count of a gap, a number of 16 bits that is not zero. -/
def gap? (modifiers : Modifiers) : Option Unit := do
  let counts ← (modifiers.filter (·.1 == "count")).mapM fun (_, value) =>
    (Text.unsigned? 16 value.toList).filter (0 < ·)
  if counts = [] then none else some ()

/-- The year, with its modifiers. -/
def year? (modifiers : Modifiers) : Option Component := do
  onlyKeys modifiers ["padding", "repr", "range", "base", "sign"]
  let part ← modifier? modifiers "repr"
    [("full", .full), ("century", .century), ("last_two", .lastTwo)] YearPart.full
  let _ ← modifier? modifiers "range" [("standard", ()), ("extended", ())] ()
  let ofWeek ← modifier? modifiers "base" [("calendar", false), ("iso_week", true)] false
  return .year (← padding? modifiers) part ofWeek (← sign? modifiers)

/-- The month, with its modifiers. -/
def month? (modifiers : Modifiers) : Option Component := do
  onlyKeys modifiers ["padding", "repr", "case_sensitive"]
  let form ← modifier? modifiers "repr"
    [("numerical", .number), ("long", .long), ("short", .short)] MonthForm.number
  let _ ← switch? modifiers "case_sensitive" true
  return .month (← padding? modifiers) form

/-- The day of the week, with its modifiers. -/
def weekday? (modifiers : Modifiers) : Option Component := do
  onlyKeys modifiers ["repr", "one_indexed", "case_sensitive"]
  let form ← modifier? modifiers "repr"
    [("short", .short), ("long", .long), ("sunday", .fromSunday), ("monday", .fromMonday)]
    WeekdayForm.long
  let _ ← switch? modifiers "case_sensitive" true
  return .weekday form (← switch? modifiers "one_indexed" true)

/-- The number of the week, with its modifiers. -/
def weekNumber? (modifiers : Modifiers) : Option Component := do
  onlyKeys modifiers ["padding", "repr"]
  let form ← modifier? modifiers "repr"
    [("iso", .iso), ("sunday", .fromSunday), ("monday", .fromMonday)] WeekForm.iso
  return .weekNumber (← padding? modifiers) form

/-- The hour, with its modifiers. -/
def hour? (modifiers : Modifiers) : Option Component := do
  onlyKeys modifiers ["padding", "repr"]
  let twelve ← modifier? modifiers "repr" [("12", true), ("24", false)] false
  return .hour (← padding? modifiers) twelve

/-- The digits after the point of the seconds, with their modifier. -/
def subsecond? (modifiers : Modifiers) : Option Component := do
  onlyKeys modifiers ["digits"]
  let counts := (List.range 9).map fun n => (toString (n + 1), some (n + 1))
  return .subsecond (← modifier? modifiers "digits" (("1+", none) :: counts) none)

/-- The half of the day, with its modifiers. -/
def period? (modifiers : Modifiers) : Option Component := do
  onlyKeys modifiers ["case", "case_sensitive"]
  let upper ← modifier? modifiers "case" [("lower", false), ("upper", true)] true
  let _ ← switch? modifiers "case_sensitive" true
  return .period upper

/-- A component that has no modifier but the padding. -/
def padded? (component : Padding → Component) (modifiers : Modifiers) : Option Component := do
  onlyKeys modifiers ["padding"]
  return component (← padding? modifiers)

/-- The component of a name, with its modifiers. -/
def component? (name : String) (modifiers : Modifiers) : Option Component :=
  match name with
  | "day" => padded? .day modifiers
  | "month" => month? modifiers
  | "year" => year? modifiers
  | "weekday" => weekday? modifiers
  | "week_number" => weekNumber? modifiers
  | "ordinal" => padded? .ordinal modifiers
  | "hour" => hour? modifiers
  | "minute" => padded? .minute modifiers
  | "second" => padded? .second modifiers
  | "subsecond" => subsecond? modifiers
  | "period" => period? modifiers
  | "ignore" => do
    onlyKeys modifiers ["count"]
    gap? modifiers
    return .nothing
  | "end" => do
    onlyKeys modifiers ["trailing_input"]
    let _ ← modifier? modifiers "trailing_input" [("prohibit", ()), ("discard", ())] ()
    return .nothing
  | _ => none

/-- What stands in brackets: a component, or something that a moment does not have. -/
inductive Content where
  | component (c : Component)
  | absent
  deriving DecidableEq, Repr

/-- Fails for a modifier that an offset from the standard time, or a time counted from a fixed one,
does not have. -/
def absent? (name : String) (modifiers : Modifiers) : Option Unit :=
  match name with
  | "offset_hour" => do
    onlyKeys modifiers ["padding", "sign"]
    let _ ← padding? modifiers
    let _ ← sign? modifiers
  | "offset_minute" | "offset_second" => do
    onlyKeys modifiers ["padding"]
    let _ ← padding? modifiers
  | "unix_timestamp" => do
    onlyKeys modifiers ["precision", "sign"]
    let _ ← modifier? modifiers "precision"
      [("second", ()), ("millisecond", ()), ("microsecond", ()), ("nanosecond", ())] ()
    let _ ← sign? modifiers
  | _ => none

/-- What a name stands for, with its modifiers. -/
def content? (name : String) (modifiers : Modifiers) : Option Content :=
  match component? name modifiers with
  | some component => some (.component component)
  | none => (absent? name modifiers).map fun () => .absent

/-! ## Words -/

/-- The blanks that separate the words in brackets. -/
def isGap (c : Char) : Bool :=
  c == ' ' || c == '\t' || c == '\n' || c == '\x0c' || c == '\r'

/-- The words of a text, and before them the characters up to its first blank. -/
def splitWords : List Char → List Char × List (List Char)
  | [] => ([], [])
  | c :: rest =>
    let (word, later) := splitWords rest
    if isGap c then ([], if word = [] then later else word :: later) else (c :: word, later)

/-- The words of a text, in lower case. -/
def words (s : List Char) : List (List Char) :=
  let (word, later) := splitWords (s.map Char.toLower)
  if word = [] then later else word :: later

/-- The key and the value of a modifier, neither of them empty. -/
def keyValue? (word : List Char) : Option (String × String) :=
  match word.takeWhile (· != ':'), word.dropWhile (· != ':') with
  | key, _ :: value =>
    if key = [] || value = [] then none else some (String.ofList key, String.ofList value)
  | _, [] => none

/-- Brackets that are not closed yet: their name and its modifiers, whether a blank stands before
the first pattern behind them, whether a pattern was read to its end there, and whether the one that
is read there can have no end. -/
structure Opened where
  name : String
  modifiers : Modifiers
  spaced : Bool
  filled : Bool
  endless : Bool
  deriving DecidableEq, Repr

/-- The brackets that start with some characters, last one first. -/
def Opened.ofPassed? (passed : List Char) : Option Opened :=
  match words passed.reverse with
  | [] => none
  | name :: modifiers =>
    return ⟨String.ofList name, ← modifiers.mapM keyValue?, passed.head?.any isGap, false, false⟩

/-! ## Reading patterns -/

/-- A piece of a pattern: a character that stands for itself, or a component. -/
inductive Piece where
  | char (c : Char)
  | component (c : Component)
  deriving DecidableEq, Repr

/-- Where reading stands: in a pattern, among the words after a bracket, last character first,
behind a pattern in brackets, or behind something malformed in them. The brackets around that are
given from the inside to the outside. -/
inductive Reading where
  | pattern (around : List Opened)
  | words (passed : List Char) (around : List Opened)
  | afterPattern (o : Opened) (around : List Opened)
  | afterFault (around : List Opened)
  deriving DecidableEq, Repr

/-- The piece for a character, which is shown if no brackets are around it. -/
def shown (around : List Opened) (c : Char) : List Piece :=
  if around = [] then [.char c] else []

/-- What brackets stand for. Behind a component no pattern belongs, and a moment can show neither
an optional pattern nor the first one of some. -/
def Opened.content? (o : Opened) : Option Content :=
  if o.filled then none else Calendar.content? o.name o.modifiers

/-- Closes brackets. Outside of others they are a piece and have to be a component; inside of others
they only have to be well-formed. -/
def Opened.close? (o : Opened) (around : List Opened) : Option (List Piece × Reading) :=
  match o.content?, around with
  | some (.component c), [] => some ([.component c], .pattern [])
  | some .absent, [] => none
  | some _, around => some ([], .pattern around)
  | none, around => some ([], .afterFault around)

/-- Reads the next character behind something malformed, with which the pattern it stands in breaks
off. Only the end of the brackets around may follow, and before it blanks, if none stand before the
pattern: otherwise these brackets are malformed too, and it is up to those around them. A pattern
in which brackets are closed so can have no end. -/
def afterFault? (around : List Opened) (c : Char) : Option (List Piece × Reading) :=
  match around with
  | [] => none
  | o :: outer =>
    if c = ']' then o.close? (outer.modifyHead fun p => { p with endless := true })
    else if isGap c then some ([], .afterFault (around.dropWhile (·.spaced)))
    else none

/-- How many brackets may be open around a component. -/
def deepest : Nat := 127

/-- Reads the character that ends a word in brackets. A pattern may start there, and a `\` never
stands there. -/
def afterWord? (passed : List Char) (around : List Opened) (c : Char) :
    Option (List Piece × Reading) :=
  match Opened.ofPassed? passed with
  | none => afterFault? around c
  | some o =>
    if c = ']' then o.close? around
    else if isGap c then some ([], .words (c :: passed) around)
    else if c = '[' && around.length < deepest then some ([], .pattern (o :: around))
    else none

/-- Reads the next character of a pattern. A bracket that is written twice stands for itself. -/
def Reading.step? : Reading → Char → Option (List Piece × Reading)
  | .pattern around, '[' => some ([], .words [] around)
  | .pattern (o :: around), ']' =>
    if o.endless then none else some ([], .afterPattern { o with filled := true } around)
  | .pattern around, c => some (shown around c, .pattern around)
  | .words [] around, '[' => some (shown around '[', .pattern around)
  | .words passed around, c =>
    if isGap c && passed.all isGap then some ([], .words (c :: passed) around)
    else if isGap c || c = '[' || c = ']' || c = '\\' then afterWord? passed around c
    else some ([], .words (c :: passed) around)
  | .afterPattern o around, '[' => some ([], .pattern (o :: around))
  | .afterPattern o around, ']' => o.close? around
  | .afterPattern o around, c => if isGap c then some ([], .afterPattern o around) else none
  | .afterFault around, c => afterFault? around c

/-- The pieces of the rest of a pattern, which ends outside of brackets. -/
def pieces? : Reading → List Char → Option (List Piece)
  | .pattern [], [] => some []
  | _, [] => none
  | reading, c :: rest => do
    let (pieces, reading) ← reading.step? c
    return pieces ++ (← pieces? reading rest)

/-- A piece of a pattern as text. -/
def Piece.text (m : Moment) : Piece → String
  | .char c => String.singleton c
  | .component c => c.text m

/-- A moment shown by a pattern, unless the pattern is malformed. -/
def Moment.format? (m : Moment) (pattern : String) : Option String :=
  (pieces? (.pattern []) pattern.toList).map fun pieces => String.join (pieces.map (Piece.text m))

end WikiHtml.Calendar
