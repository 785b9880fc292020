-- Anchors in links to pages. An anchor is encoded as a query parameter, and then once more as part of
-- the whole URL: escapes pass the second encoding, but the plus sign that stands for a space does
-- not. So what is read back from a link is the anchor with a plus sign for each space.
import WikiHtml.Html.Page
import WikiHtml.Proofs.Html.Address

namespace WikiHtml

namespace Text

/-! ## A text that is encoded twice -/

/-- A text with a plus sign for each space. -/
def plusForSpaces (s : String) : String :=
  String.ofList (s.toList.map fun c => if c = ' ' then '+' else c)

theorem plusForSpaces_eq_self {s : String} : plusForSpaces s = s ↔ ' ' ∉ s.toList := by
  have hchar : ∀ c : Char, (if c = ' ' then '+' else c) = id c ↔ c ≠ ' ' := by
    intro c
    by_cases h : c = ' '
    · subst h
      decide
    · simp [h]
  have hchars : (s.toList.map fun c => if c = ' ' then '+' else c) = s.toList.map id ↔
      ∀ c ∈ s.toList, c ≠ ' ' := by
    rw [List.map_inj_left]
    exact forall₂_congr fun c _ => hchar c
  rw [List.map_id] at hchars
  rw [plusForSpaces, ← String.toList_inj, String.toList_ofList, hchars]
  exact ⟨fun h hmem => h ' ' hmem rfl, fun h c hmem hc => h (hc ▸ hmem)⟩

theorem encodeUrl_append (s t : String) : encodeUrl (s ++ t) = encodeUrl s ++ encodeUrl t := by
  rw [encodeUrl, String.toList_append, List.flatMap_append, String.ofList_append]
  rfl

/-- Characters that are kept stay as they are. -/
theorem percentChars_of_kept {kept : Char → Bool} {text : List Char}
    (h : ∀ c ∈ text, kept c = true ∧ c ≠ ' ') : text.flatMap (percentChar kept) = text := by
  induction text with
  | nil => rfl
  | cons c text ih =>
    obtain ⟨hkept, hspace⟩ := h c List.mem_cons_self
    rw [List.flatMap_cons, ih fun d hd => h d (List.mem_cons_of_mem c hd), percentChar,
      if_neg hspace, if_pos hkept]
    rfl

/-- An escape keeps its meaning in a whole URL. -/
theorem keptInUrl_of_mem_percentByte {b : UInt8} {c : Char} (h : c ∈ percentByte b) :
    keptInUrl c = true ∧ c ≠ ' ' ∧ c ≠ '#' := by
  have hdigit : ∀ n < 16, keptInUrl (hexDigit n) = true ∧ hexDigit n ≠ ' ' ∧ hexDigit n ≠ '#' := by
    decide
  have hbyte := b.toNat_lt
  simp only [percentByte, List.mem_cons, List.not_mem_nil, or_false] at h
  rcases h with rfl | rfl | rfl
  · decide
  · exact hdigit _ (by omega)
  · exact hdigit _ (by omega)

theorem keptInUrl_of_keptInParameter {c : Char} (h : keptInParameter c = true) :
    keptInUrl c = true := by
  have hmarks : ("-_.*".toList.all fun d => "-_.!~*'()/?&=#%".toList.contains d) = true := by
    decide
  simp only [keptInParameter, keptInUrl, Bool.or_eq_true] at h ⊢
  exact h.imp_right fun hc => List.all_eq_true.mp hmarks c (List.contains_iff_mem.mp hc)

/-- Of a character of a query parameter the second encoding changes the plus sign only. -/
theorem percentChars_percentChar (c : Char) :
    (percentChar keptInParameter c).flatMap (percentChar keptInUrl) =
      percentChar keptInParameter (if c = ' ' then '+' else c) := by
  by_cases hspace : c = ' '
  · subst hspace
    rfl
  rw [if_neg hspace]
  refine percentChars_of_kept fun d hd => ?_
  rw [percentChar, if_neg hspace] at hd
  split at hd
  · rename_i hkept
    obtain rfl := List.mem_singleton.mp hd
    exact ⟨keptInUrl_of_keptInParameter hkept, hspace⟩
  · obtain ⟨b, -, hb⟩ := List.mem_flatMap.mp hd
    obtain ⟨hkept, hnospace, -⟩ := keptInUrl_of_mem_percentByte hb
    exact ⟨hkept, hnospace⟩

/-- A query parameter in a URL that is encoded as a whole is that of the text with a plus sign for
each space. -/
theorem encodeUrl_encodeUrlParameter (s : String) :
    encodeUrl (encodeUrlParameter s) = encodeUrlParameter (plusForSpaces s) := by
  simp only [encodeUrl, encodeUrlParameter, plusForSpaces, String.toList_ofList,
    List.flatMap_assoc, List.flatMap_map, percentChars_percentChar]

/-- The encoding of a URL does not bring in the mark of an anchor. -/
theorem hash_not_mem_encodeUrl {s : String} (h : '#' ∉ s.toList) : '#' ∉ (encodeUrl s).toList := by
  intro hmem
  rw [encodeUrl, String.toList_ofList, List.mem_flatMap] at hmem
  obtain ⟨c, hc, hmem⟩ := hmem
  unfold percentChar at hmem
  split at hmem
  · exact absurd hmem (by decide)
  · split at hmem
    · exact h (List.mem_singleton.mp hmem ▸ hc)
    · obtain ⟨b, -, hb⟩ := List.mem_flatMap.mp hmem
      exact (keptInUrl_of_mem_percentByte hb).2.2 rfl

/-! ## The part that names a place -/

/-- The part of a URL after its first `#`. -/
def fragment? (url : String) : Option String :=
  match url.toList.dropWhile (· != '#') with
  | [] => none
  | _ :: rest => some (String.ofList rest)

theorem fragment?_append {url : String} (h : '#' ∉ url.toList) (fragment : String) :
    fragment? (url ++ ("#" ++ fragment)) = some fragment := by
  have hbefore : ∀ c ∈ url.toList, (c != '#') = true := by
    intro c hc
    rw [bne_iff_ne]
    rintro rfl
    exact h hc
  have hchars : ("#" ++ fragment).toList = '#' :: fragment.toList := by
    rw [String.toList_append]
    rfl
  rw [fragment?, String.toList_append, List.dropWhile_append_of_pos hbefore, hchars,
    List.dropWhile_cons_of_neg (by simp)]
  exact congrArg some String.ofList_toList

end Text

namespace Html

/-! ## The anchor of a link -/

/-- The URL of a link to a page with an anchor, as it stands in the page. -/
def anchorHref (r : Repository) (place : Place) (path : Option String) (anchor : String) : String :=
  let target := pageTarget r place path
  Text.encodeUrl (target.fullUrl (target.anchor? (some anchor)))

section

variable {r : Repository} {place : Place} {path : Option String}

/-- A link leads to what is there if its target is a folder or a stored page, or if it has no
target and stays in its page. -/
theorem isNew_pageTarget
    (h : ∀ target, path.bind place.absolutePath = some target →
      target.toList.getLast? = some '/' ∨ r.exists? target = true) :
    (pageTarget r place path).isNew = false := by
  unfold pageTarget
  split
  · rename_i target htarget
    rw [if_pos]
    rcases h target htarget with hfolder | hstored
    · simp [hfolder]
    · simp [hstored]
  · rfl

theorem hash_not_mem_pageTarget : '#' ∉ (pageTarget r place path).url.toList := by
  have hpath : ∀ p, '#' ∉ (PagePath.toUrl p).toList := fun p =>
    PagePath.not_mem_toUrl (by decide) (by decide)
  unfold pageTarget
  split
  · split
    · exact hpath _
    · exact hpath _
  · decide

/-- The URL of a link ends with its anchor, encoded twice. -/
theorem anchorHref_eq (h : (pageTarget r place path).isNew = false) (anchor : String) :
    anchorHref r place path anchor =
      Text.encodeUrl (pageTarget r place path).url ++
        ("#" ++ Text.encodeUrlParameter (Text.plusForSpaces anchor)) := by
  have hhash : Text.encodeUrl "#" = "#" := by decide
  simp only [anchorHref, Target.anchor?, h, Bool.false_eq_true, if_false, Target.fullUrl,
    Text.encodeUrl_append, hhash, Text.encodeUrl_encodeUrlParameter, String.append_assoc]

theorem decodeUrl?_fragment? (h : (pageTarget r place path).isNew = false) (anchor : String) :
    (Text.fragment? (anchorHref r place path anchor)).bind Text.decodeUrl? =
      some (Text.plusForSpaces anchor) := by
  rw [anchorHref_eq h, Text.fragment?_append (Text.hash_not_mem_encodeUrl hash_not_mem_pageTarget),
    Option.bind_some, Text.decodeUrl?_encodeUrlParameter]

end

/-- A link with an anchor to a stored page, to a folder or into its own page has a URL from which
the anchor is read back with a plus sign for each space. So an anchor is read back exactly if there
is no space in it, and two links to one target have the same URL exactly if their anchors are the
same up to spaces and plus signs. -/
theorem anchors_are_read_back_with_plus_for_space (v : View) (place : Place) (path : Option String)
    (h : ∀ target, path.bind place.absolutePath = some target →
      target.toList.getLast? = some '/' ∨ v.repository.exists? target = true) :
    (∀ anchor span child content s,
      wrapped v place span child content s (.linkPage path (some anchor)) =
        s.tag "a" (attr "href" (anchorHref v.repository place path anchor))
          (orLabel child content
            (Text.escape ((pageTarget v.repository place path).label path (some anchor))))) ∧
    (∀ anchor, (Text.fragment? (anchorHref v.repository place path anchor)).bind Text.decodeUrl? =
      some (Text.plusForSpaces anchor)) ∧
    (∀ anchor, (Text.fragment? (anchorHref v.repository place path anchor)).bind Text.decodeUrl? =
      some anchor ↔ ' ' ∉ anchor.toList) ∧
    (∀ anchor anchor', anchorHref v.repository place path anchor =
      anchorHref v.repository place path anchor' ↔
        Text.plusForSpaces anchor = Text.plusForSpaces anchor') := by
  have hnew := isNew_pageTarget h
  refine ⟨?_, decodeUrl?_fragment? hnew, ?_, ?_⟩
  · intro anchor span child content s
    simp only [wrapped, Target.attributes, hnew, Bool.false_eq_true, if_false, urlAttr, anchorHref]
  · intro anchor
    rw [decodeUrl?_fragment? hnew, Option.some.injEq, Text.plusForSpaces_eq_self]
  · intro anchor anchor'
    constructor
    · intro heq
      have hread := decodeUrl?_fragment? hnew anchor
      rw [heq, decodeUrl?_fragment? hnew, Option.some.injEq] at hread
      exact hread.symm
    · intro heq
      rw [anchorHref_eq hnew, anchorHref_eq hnew, heq]

/-- In a link to a folder an anchor of one word is read back, and one of two words is not. -/
theorem a_space_in_an_anchor_is_read_as_plus :
    let place : Place := ⟨some (some "/p"), some "/p", none⟩
    let read (anchor : String) :=
      (Text.fragment? (anchorHref .empty place (some "f/") anchor)).bind Text.decodeUrl?
    read "a" = some "a" ∧ read "a b" = some "a+b" := by
  have hread := anchors_are_read_back_with_plus_for_space ⟨.empty, .standard, false⟩
    ⟨some (some "/p"), some "/p", none⟩ (some "f/") (by
      intro target htarget
      left
      obtain rfl : "/f/" = target := by
        rw [← Option.some.injEq, ← htarget]
        decide
      decide)
  exact ⟨(hread.2.2.1 "a").mpr (by decide), hread.2.1 "a b"⟩

/-- A page with a link to a place in it. -/
def pageLinkingTo (anchor : String) : Document :=
  .node (.wrap (.page (some "/p")) (some (.node (.wrap (.linkPage none (some anchor)) none) none)))
    none

/-- Links to two places of a page have the same URL, from which the first is not read back. -/
theorem two_anchors_have_one_url :
    (page ⟨.empty, .standard, false⟩ (pageLinkingTo "a b")).body =
        ["<a href=\"#a%2Bb\">#a b</a>"] ∧
      (page ⟨.empty, .standard, false⟩ (pageLinkingTo "a+b")).body =
        ["<a href=\"#a%2Bb\">#a+b</a>"] ∧
      (Text.fragment? "#a%2Bb").bind Text.decodeUrl? = some "a+b" := by
  decide

end Html

end WikiHtml
