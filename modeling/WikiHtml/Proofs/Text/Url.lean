-- URLs read back. The encoding of a text, and the form in which a page path stands in a URL, are
-- each read character by character, and what is read is the text that was written.
import WikiHtml.PagePath
import WikiHtml.Text.Url

namespace WikiHtml

namespace Text

/-! ## Reading -/

/-- The number that a hexadecimal digit stands for. -/
def hexValue? (c : Char) : Option Nat :=
  if '0' ≤ c ∧ c ≤ '9' then some (c.toNat - '0'.toNat)
  else if 'A' ≤ c ∧ c ≤ 'F' then some (c.toNat - 'A'.toNat + 10)
  else if 'a' ≤ c ∧ c ≤ 'f' then some (c.toNat - 'a'.toNat + 10)
  else none

/-- The number that two hexadecimal digits stand for. -/
def hexPair? (high low : Char) : Option Nat :=
  (hexValue? high).bind fun h => (hexValue? low).map fun l => h * 16 + l

/-- The bytes that an encoded text stands for: a plus sign is a space, an escape the byte that it
names, and any other character its UTF-8 form. -/
def encodedBytes? : List Char → Option (List UInt8)
  | [] => some []
  | '+' :: rest => (encodedBytes? rest).map (String.utf8EncodeChar ' ' ++ ·)
  | '%' :: high :: low :: rest =>
    (hexPair? high low).bind fun n => (encodedBytes? rest).map (UInt8.ofNat n :: ·)
  | '%' :: _ => none
  | c :: rest => (encodedBytes? rest).map (String.utf8EncodeChar c ++ ·)

/-- The text that an encoded text stands for, if its escapes are whole and its bytes are UTF-8. -/
def decodeUrl? (s : String) : Option String :=
  (encodedBytes? s.toList).bind fun bytes => String.fromUTF8? bytes.toByteArray

/-! ## What is written is read -/

theorem hexPair?_hexDigit {n : Nat} (h : n < 256) :
    hexPair? (hexDigit (n / 16)) (hexDigit (n % 16)) = some n := by
  have hdigit : ∀ n < 16, hexValue? (hexDigit n) = some n := by decide
  rw [hexPair?, hdigit (n / 16) (by omega), hdigit (n % 16) (by omega)]
  simp only [Option.bind_some, Option.map_some, Option.some.injEq]
  omega

theorem encodedBytes?_percentByte (b : UInt8) (rest : List Char) :
    encodedBytes? (percentByte b ++ rest) = (encodedBytes? rest).map (b :: ·) := by
  simp only [percentByte, List.cons_append, List.nil_append, encodedBytes?,
    hexPair?_hexDigit b.toNat_lt, Option.bind_some, UInt8.ofNat_toNat]

theorem encodedBytes?_percentBytes (bytes : List UInt8) (rest : List Char) :
    encodedBytes? (bytes.flatMap percentByte ++ rest) = (encodedBytes? rest).map (bytes ++ ·) := by
  induction bytes with
  | nil => simp
  | cons b bytes ih =>
    rw [List.flatMap_cons, List.append_assoc, encodedBytes?_percentByte, ih, Option.map_map]
    rfl

/-- A character that is no plus sign and starts no escape is read as itself. -/
theorem encodedBytes?_cons {c : Char} (hplus : c ≠ '+') (hpercent : c ≠ '%') (rest : List Char) :
    encodedBytes? (c :: rest) = (encodedBytes? rest).map (String.utf8EncodeChar c ++ ·) := by
  rw [encodedBytes?.eq_def]
  split
  · contradiction
  · rename_i heq
    exact absurd (List.cons.inj heq).1 hplus
  · rename_i heq
    exact absurd (List.cons.inj heq).1 hpercent
  · rename_i heq
    exact absurd (List.cons.inj heq).1 hpercent
  · rename_i heq
    obtain ⟨rfl, rfl⟩ := List.cons.inj heq
    rfl

section

variable {kept : Char → Bool}

/-- Each character is read as its UTF-8 form, whether it was kept or escaped. -/
theorem encodedBytes?_percentChar {c : Char} (h : kept c = true → c ≠ '+' ∧ c ≠ '%')
    (rest : List Char) :
    encodedBytes? (percentChar kept c ++ rest) =
      (encodedBytes? rest).map (String.utf8EncodeChar c ++ ·) := by
  unfold percentChar
  split
  · rename_i hspace
    subst hspace
    rfl
  · split
    · rename_i hkept
      exact encodedBytes?_cons (h hkept).1 (h hkept).2 rest
    · exact encodedBytes?_percentBytes _ rest

theorem encodedBytes?_percentChars {s : List Char}
    (h : ∀ c ∈ s, kept c = true → c ≠ '+' ∧ c ≠ '%') :
    encodedBytes? (s.flatMap (percentChar kept)) = some (s.flatMap String.utf8EncodeChar) := by
  induction s with
  | nil => rfl
  | cons c s ih =>
    rw [List.flatMap_cons, encodedBytes?_percentChar (h c List.mem_cons_self),
      ih fun d hd => h d (List.mem_cons_of_mem c hd)]
    rfl

theorem fromUTF8?_toList (s : String) :
    String.fromUTF8? (s.toList.flatMap String.utf8EncodeChar).toByteArray = some s := by
  have hbytes : (s.toList.flatMap String.utf8EncodeChar).toByteArray = s.toByteArray :=
    String.utf8Encode_toList
  rw [hbytes, String.fromUTF8?, dif_pos s.isValidUTF8]
  rfl

theorem decodeUrl?_percentChars {s : String}
    (h : ∀ c ∈ s.toList, kept c = true → c ≠ '+' ∧ c ≠ '%') :
    decodeUrl? (String.ofList (s.toList.flatMap (percentChar kept))) = some s := by
  rw [decodeUrl?, String.toList_ofList, encodedBytes?_percentChars h]
  exact fromUTF8?_toList s

end

/-- A query parameter is read back, whatever it says. -/
theorem decodeUrl?_encodeUrlParameter (s : String) :
    decodeUrl? (encodeUrlParameter s) = some s := by
  refine decodeUrl?_percentChars fun c _ hkept => ?_
  constructor <;> rintro rfl <;> exact absurd hkept (by decide)

/-- A URL is read back unless it holds a `%`, which is kept and would be read as an escape. -/
theorem decodeUrl?_encodeUrl {s : String} (h : '%' ∉ s.toList) :
    decodeUrl? (encodeUrl s) = some s := by
  refine decodeUrl?_percentChars fun c hc hkept => ⟨?_, fun he => h (he ▸ hc)⟩
  rintro rfl
  exact absurd hkept (by decide)

/-- URLs without a `%` are told apart when they are encoded. -/
theorem encodeUrl_inj {s t : String} (hs : '%' ∉ s.toList) (ht : '%' ∉ t.toList)
    (h : encodeUrl s = encodeUrl t) : s = t := by
  have hread := decodeUrl?_encodeUrl hs
  rw [h, decodeUrl?_encodeUrl ht, Option.some.injEq] at hread
  exact hread.symm

end Text

/-! ## Page paths -/

namespace PagePath

/-- The characters of the page path whose URL form is given: `!` and two digits are the character
with that code. -/
def fromUrlChars? : List Char → Option (List Char)
  | [] => some []
  | '!' :: high :: low :: rest =>
    (Text.hexPair? high low).bind fun n => (fromUrlChars? rest).map (Char.ofNat n :: ·)
  | '!' :: _ => none
  | c :: rest => (fromUrlChars? rest).map (c :: ·)

/-- The page path whose URL form is given. -/
def ofUrl? (url : String) : Option String :=
  (fromUrlChars? url.toList).map String.ofList

/-- The characters that mean something in a URL. -/
def isReserved (c : Char) : Bool :=
  c == '!' || c == '#' || c == '%' || c == '?'

/-- A character is written with a code, or it is kept and means nothing in a URL. -/
theorem urlChar_cases (c : Char) :
    (urlChar c = [c] ∧ isReserved c = false) ∨
      ∃ high low, urlChar c = ['!', high, low] ∧ Text.hexPair? high low = some c.toNat ∧
        isReserved high = false ∧ isReserved low = false := by
  unfold urlChar
  split
  · exact .inr ⟨_, _, rfl, by decide⟩
  · exact .inr ⟨_, _, rfl, by decide⟩
  · exact .inr ⟨_, _, rfl, by decide⟩
  · exact .inr ⟨_, _, rfl, by decide⟩
  · rename_i hmark hhash hpercent hquestion
    refine .inl ⟨rfl, ?_⟩
    simp only [isReserved, Bool.or_eq_false_iff, beq_eq_false_iff_ne]
    exact ⟨⟨⟨hmark, hhash⟩, hpercent⟩, hquestion⟩

theorem fromUrlChars?_cons {c : Char} (h : c ≠ '!') (rest : List Char) :
    fromUrlChars? (c :: rest) = (fromUrlChars? rest).map (c :: ·) := by
  rw [fromUrlChars?.eq_def]
  split
  · contradiction
  · rename_i heq
    exact absurd (List.cons.inj heq).1 h
  · rename_i heq
    exact absurd (List.cons.inj heq).1 h
  · rename_i heq
    obtain ⟨rfl, rfl⟩ := List.cons.inj heq
    rfl

theorem fromUrlChars?_urlChars (path : List Char) :
    fromUrlChars? (path.flatMap urlChar) = some path := by
  induction path with
  | nil => rfl
  | cons c path ih =>
    rw [List.flatMap_cons]
    rcases urlChar_cases c with ⟨hkept, hc⟩ | ⟨high, low, hcode, hpair, -⟩
    · have hmark : c ≠ '!' := by
        rintro rfl
        exact absurd hc (by decide)
      rw [hkept, List.singleton_append, fromUrlChars?_cons hmark, ih]
      rfl
    · rw [hcode]
      simp only [List.cons_append, List.nil_append, fromUrlChars?, hpair, ih, Option.bind_some,
        Option.map_some, Char.ofNat_toNat]

/-- A page path is read back from its URL form. -/
theorem ofUrl?_toUrl (path : String) : ofUrl? (toUrl path) = some path := by
  rw [ofUrl?, toUrl, String.toList_ofList, fromUrlChars?_urlChars, Option.map_some,
    String.ofList_toList]

/-- Page paths are told apart by their URL forms. -/
theorem toUrl_inj {path path' : String} (h : toUrl path = toUrl path') : path = path' := by
  have hread := ofUrl?_toUrl path
  rw [h, ofUrl?_toUrl, Option.some.injEq] at hread
  exact hread.symm

/-- In the URL form of a page path stands no character that means something, but for the `!` of a
code. -/
theorem not_mem_toUrl {path : String} {c : Char} (hc : isReserved c = true) (hmark : c ≠ '!') :
    c ∉ (toUrl path).toList := by
  intro hmem
  rw [toUrl, String.toList_ofList, List.mem_flatMap] at hmem
  obtain ⟨d, -, hd⟩ := hmem
  rcases urlChar_cases d with ⟨hkept, hplain⟩ | ⟨high, low, hcode, -, hhigh, hlow⟩
  · rw [hkept, List.mem_singleton] at hd
    rw [hd, hplain] at hc
    cases hc
  · rw [hcode, List.mem_cons, List.mem_cons, List.mem_singleton] at hd
    rcases hd with rfl | rfl | rfl
    · exact hmark rfl
    · rw [hhigh] at hc
      cases hc
    · rw [hlow] at hc
      cases hc

/-- A page path is read back from its URL. -/
theorem decodeUrl?_encodeUrl_toUrl (path : String) :
    (Text.decodeUrl? (Text.encodeUrl (toUrl path))).bind ofUrl? = some path := by
  have hpercent : '%' ∉ (toUrl path).toList := not_mem_toUrl (by decide) (by decide)
  rw [Text.decodeUrl?_encodeUrl hpercent, Option.bind_some, ofUrl?_toUrl]

end PagePath

end WikiHtml
