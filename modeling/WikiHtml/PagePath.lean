-- Paths of wiki pages. Segments are separated by `/`; a path is absolute if it starts with `/`, and
-- names a folder if it ends with `/`.

namespace WikiHtml.PagePath

/-! ## Parts -/

/-- The part up to and including the last `/`; a path without one lies in the root folder. -/
def folder (path : String) : String :=
  match path.toList.reverse.dropWhile (· != '/') with
  | [] => "/"
  | upToSlash => String.ofList upToSlash.reverse

/-- The part after the last `/`. -/
def name (path : String) : String :=
  String.ofList (path.toList.reverse.takeWhile (· != '/')).reverse

/-- Whether a path starts at the root folder. -/
def isAbsolute (path : String) : Bool :=
  path.toList.head? == some '/'

/-! ## Joining and resolving -/

/-- Two paths joined, as characters, with one `/` between them. -/
def joinChars (first second : List Char) : List Char :=
  let slash := if first = [] || first.getLast? = some '/' then [] else ['/']
  let tail := match second with
    | '/' :: rest => rest
    | _ => second
  first ++ slash ++ tail

/-- Two paths joined with one `/` between them; an empty first path adds nothing. -/
def join (first second : String) : String :=
  String.ofList (joinChars first.toList second.toList)

/-- The text before the first two dots in a row, and the text after them. -/
def cutAtDots? : List Char → Option (List Char × List Char)
  | [] => none
  | '.' :: '.' :: after => some ([], after)
  | c :: rest => (cutAtDots? rest).map fun (before, after) => (c :: before, after)

/-- Whether what stands between two texts is a whole segment: slashes or the ends of the path are
next to it. -/
def isSegment (before after : List Char) : Bool :=
  (before.isEmpty || before.getLast? == some '/') && (after.isEmpty || after.head? == some '/')

/-- The path up to a segment, without the segment before that one. The leading `/` stays. -/
def withoutLastSegment (before : List Char) : List Char :=
  if before.length ≤ 1 then before
  else (before.dropLast.reverse.dropWhile (· != '/')).reverse

theorem cutAtDots?_eq_some {rest before after : List Char}
    (h : cutAtDots? rest = some (before, after)) : rest = before ++ '.' :: '.' :: after := by
  induction rest using cutAtDots?.induct generalizing before with
  | case1 => cases h
  | case2 rest =>
    obtain ⟨rfl, rfl⟩ := Prod.mk.inj (Option.some.inj h)
    rfl
  | case3 c rest hdots ih =>
    rw [cutAtDots?, Option.map_eq_some_iff] at h
    · obtain ⟨⟨start, _⟩, hcut, hpair⟩ := h
      obtain ⟨rfl, rfl⟩ := Prod.mk.inj hpair
      rw [ih hcut, List.cons_append]
    · exact hdots

theorem length_withoutLastSegment_le (before : List Char) :
    (withoutLastSegment before).length ≤ before.length := by
  unfold withoutLastSegment
  split
  · exact Nat.le_refl _
  · have := (List.dropWhile_suffix (l := before.dropLast.reverse) (· != '/')).length_le
    simp only [List.length_reverse, List.length_dropLast] at this ⊢
    omega

/-- Removes each segment `..` of a path together with the segment before it; `passed` is the start of
the path, where none is left. The search starts over after a removal, and goes on behind two dots that
are no segment. -/
def dropParents (passed rest : List Char) : List Char :=
  match _hcut : cutAtDots? rest with
  | none => passed ++ rest
  | some (before, after) =>
    if isSegment (passed ++ before) after then
      dropParents [] (withoutLastSegment (passed ++ before) ++ after.tail)
    else dropParents (passed ++ before ++ ['.', '.']) after
termination_by (passed.length + rest.length, rest.length)
decreasing_by
  · have hrest := congrArg List.length (cutAtDots?_eq_some _hcut)
    have hkept := length_withoutLastSegment_le (passed ++ before)
    apply Prod.Lex.left
    simp only [List.length_append, List.length_cons, List.length_nil, List.length_tail] at hrest hkept ⊢
    omega
  · have hrest := congrArg List.length (cutAtDots?_eq_some _hcut)
    simp only [List.length_append, List.length_cons] at hrest
    have hsame : (passed ++ before ++ ['.', '.']).length + after.length =
        passed.length + rest.length := by
      simp only [List.length_append, List.length_cons, List.length_nil]
      omega
    rw [hsame]
    exact Prod.Lex.right _ (by omega)

/-- A path without the segments `..`; one where no two dots stand in a row stays as it is. -/
def resolveDots (path : List Char) : List Char :=
  if (cutAtDots? path).isNone then path else dropParents [] path

/-- A path made absolute. A relative one is joined to the base folder, and its segments `..` are
resolved; an absolute one stays as it is. -/
def makeAbsolute (path base : Option String) : String :=
  match path.filter isAbsolute with
  | some absolute => absolute
  | none =>
    let joined := joinChars (base.getD "").toList (path.getD "").toList
    let rooted := if joined.head? = some '/' then joined else '/' :: joined
    String.ofList (resolveDots rooted)

/-! ## URL form -/

/-- A character of a page path in a URL: the four that mean something there are written as `!` and
two hexadecimal digits. -/
def urlChar : Char → List Char
  | '!' => ['!', '2', '1']
  | '#' => ['!', '2', '3']
  | '%' => ['!', '2', '5']
  | '?' => ['!', '3', 'f']
  | c => [c]

/-- A page path as it stands in a URL, before the percent encoding. -/
def toUrl (path : String) : String :=
  String.ofList (path.toList.flatMap urlChar)

end WikiHtml.PagePath
