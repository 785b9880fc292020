-- Values of JSON. Members of an object keep their order and may repeat; a string knows whether it
-- is text, and a number keeps its digits.

namespace WikiHtml

namespace Json

/-! ## Numbers -/

/-- A number as it is written: the digits before and after the point, and the exponent. -/
structure Number where
  negative : Bool
  whole : List Nat
  fraction : List Nat
  exponent : Option Int
  deriving DecidableEq, Repr

/-- The natural number that is written as digits alone. -/
def Number.nat? (n : Number) : Option Nat :=
  if n.negative || n.fraction != [] || n.exponent != none then none
  else some (n.whole.foldl (fun value d => value * 10 + d) 0)

/-- The double next to a natural number, a tie going to the even one. The range of exponents does
not count here. -/
def nearestDouble (n : Nat) : Nat :=
  let unit := Nat.pow 2 (n.log2 + 1 - 53)
  let down := n / unit
  let rest := 2 * (n % unit)
  let even := down % 2 == 0
  (if rest < unit || (rest == unit && even) then down else down + 1) * unit

/-- The digits that a word of 64 bits holds, and the power of ten that they are taken times. Digits
that no longer fit count by their place alone. -/
def Number.significand (n : Number) : Nat × Int :=
  let limit := Nat.pow 2 64
  let whole := n.whole.foldl (fun (s, e) d =>
    if e == 0 && s * 10 + d < limit then (s * 10 + d, e) else (s, e + 1)) (0, (0 : Int))
  let all := n.fraction.foldl (fun (s, e, full) d =>
    if !full && s * 10 + d < limit then (s * 10 + d, e - 1, false) else (s, e, true))
    (whole.1, whole.2, false)
  (all.1, all.2.1 + n.exponent.getD 0)

/-- Whether the number, computed as significand times power of ten, is a finite double. -/
def Number.isFinite (n : Number) : Bool :=
  let (significand, exponent) := n.significand
  significand == 0 || exponent ≤ 0 ||
    (exponent ≤ 308 &&
      nearestDouble significand * nearestDouble (Nat.pow 10 exponent.toNat)
        < Nat.pow 2 1024 - Nat.pow 2 970)

end Json

/-! ## Values -/

/-- A value. A string that holds half of a surrogate pair is no text and has the value `none`. -/
inductive Json where
  | null
  | bool (value : Bool)
  | number (value : Json.Number)
  | string (text : Option String)
  | array (items : List Json)
  | object (members : List (Option String × Json))

namespace Json

mutual

/-- How deep arrays and objects are nested. -/
def depth : Json → Nat
  | .array items => depthOfItems items + 1
  | .object members => depthOfMembers members + 1
  | _ => 0

/-- The greatest depth of the items. -/
def depthOfItems : List Json → Nat
  | [] => 0
  | item :: rest => max item.depth (depthOfItems rest)

/-- The greatest depth of the values of the members. -/
def depthOfMembers : List (Option String × Json) → Nat
  | [] => 0
  | (_, value) :: rest => max value.depth (depthOfMembers rest)

end

mutual

/-- Whether every string is text and every number is a finite double. -/
def isExact : Json → Bool
  | .null => true
  | .bool _ => true
  | .number n => n.isFinite
  | .string text => text.isSome
  | .array items => itemsAreExact items
  | .object members => membersAreExact members

/-- Whether all items are exact. -/
def itemsAreExact : List Json → Bool
  | [] => true
  | item :: rest => item.isExact && itemsAreExact rest

/-- Whether all keys are text and all values are exact. -/
def membersAreExact : List (Option String × Json) → Bool
  | [] => true
  | (key, value) :: rest => key.isSome && value.isExact && membersAreExact rest

end

/-- How deep a tree or a value that is kept as a whole may be nested. -/
def nestingLimit : Nat := 127

/-- Whether the value may be kept as a whole: nested within the limit, and exact throughout. -/
def isSound (json : Json) : Bool :=
  json.depth ≤ nestingLimit && json.isExact

end Json

end WikiHtml
