-- The URLs of a wiki say what they lead to. From the URL of a page its path is read back, and from
-- that of an editor link the path of the page and the range of its source text.
import WikiHtml.Html.EditLink
import WikiHtml.Proofs.Text.Pieces
import WikiHtml.Proofs.Text.Url

namespace WikiHtml.Html

/-! ## Parts of a URL -/

/-- Texts are split at the first place of a character in one way only. -/
theorem split_at_first {c : Char} {a a' b b' : List Char} (h : c ∉ a) (h' : c ∉ a')
    (heq : a ++ c :: b = a' ++ c :: b') : a = a' ∧ b = b' := by
  have hbefore : ∀ {x y : List Char}, c ∉ x → (x ++ c :: y).takeWhile (· != c) = x := by
    intro x y hx
    have hother : ∀ d ∈ x, (d != c) = true := by
      intro d hd
      rw [bne_iff_ne]
      rintro rfl
      exact hx hd
    rw [List.takeWhile_append_of_pos hother, List.takeWhile_cons_of_neg (by simp), List.append_nil]
  have ha : a = a' := by rw [← hbefore h, heq, hbefore h']
  subst ha
  exact ⟨rfl, (List.cons.inj (List.append_cancel_left heq)).2⟩

/-! ## Links to the editor -/

/-- What an editor link says after the path: where the range starts and where it ends. -/
def rangeText (first last : String) : String :=
  "fromPos=" ++ first ++ "&toPos=" ++ last

theorem toList_rangeText (first last : String) :
    (rangeText first last).toList =
      ("fromPos=".toList ++ first.toList) ++ '&' :: ("toPos=".toList ++ last.toList) := by
  have hlast : "&toPos=".toList = '&' :: "toPos=".toList := by decide
  unfold rangeText
  rw [String.toList_append, String.toList_append, String.toList_append, hlast, List.append_assoc,
    List.cons_append]

theorem toList_editUrl (path : String) (span : Span) :
    (editUrl path span).toList = (PagePath.toUrl (PagePath.join "/edit/" path)).toList ++
      '?' :: (rangeText (toString span.first) (toString span.last)).toList := by
  have hsplit : ∀ url first last : String,
      url ++ "?fromPos=" ++ first ++ "&toPos=" ++ last = url ++ ("?" ++ rangeText first last) := by
    intro url first last
    have hquestion : "?fromPos=" = "?" ++ "fromPos=" := by decide
    unfold rangeText
    rw [hquestion]
    simp only [String.append_assoc]
  unfold editUrl
  rw [hsplit, String.toList_append, String.toList_append]
  rfl

theorem rangeText_inj {first first' last last' : String} (h : '&' ∉ first.toList)
    (h' : '&' ∉ first'.toList) (heq : rangeText first last = rangeText first' last') :
    first = first' ∧ last = last' := by
  have hand : ∀ {s : String}, '&' ∉ s.toList → '&' ∉ "fromPos=".toList ++ s.toList := by
    intro s hs hmem
    rcases List.mem_append.mp hmem with hmem | hmem
    · exact absurd hmem (by decide)
    · exact hs hmem
  have hlists := congrArg String.toList heq
  rw [toList_rangeText, toList_rangeText] at hlists
  obtain ⟨hfirst, hlast⟩ := split_at_first (hand h) (hand h') hlists
  exact ⟨String.toList_inj.mp (List.append_cancel_left hfirst),
    String.toList_inj.mp (List.append_cancel_left hlast)⟩

theorem not_mem_rangeText {first last : String} (hfirst : '%' ∉ first.toList)
    (hlast : '%' ∉ last.toList) : '%' ∉ (rangeText first last).toList := by
  have hbefore : '%' ∉ "fromPos=".toList := by decide
  have hbetween : '%' ∉ "toPos=".toList := by decide
  have hand : '%' ≠ '&' := by decide
  rw [toList_rangeText]
  simp only [List.mem_append, List.mem_cons, not_or]
  exact ⟨⟨hbefore, hfirst⟩, hand, hbetween, hlast⟩

theorem not_mem_editUrl (path : String) (span : Span) : '%' ∉ (editUrl path span).toList := by
  have hpath : '%' ∉ (PagePath.toUrl (PagePath.join "/edit/" path)).toList :=
    PagePath.not_mem_toUrl (by decide) (by decide)
  have hrange : '%' ∉ (rangeText (toString span.first) (toString span.last)).toList :=
    not_mem_rangeText (Text.not_mem_toString (by decide) _) (Text.not_mem_toString (by decide) _)
  have hquestion : '%' ≠ '?' := by decide
  rw [toList_editUrl, List.mem_append, List.mem_cons, not_or, not_or]
  exact ⟨hpath, hquestion, hrange⟩

/-- Absolute paths are told apart when they are joined to the path of the editor. -/
theorem join_edit_inj {path path' : String} (h : PagePath.isAbsolute path = true)
    (h' : PagePath.isAbsolute path' = true)
    (heq : PagePath.join "/edit/" path = PagePath.join "/edit/" path') : path = path' := by
  have hjoin : ∀ {p : String}, PagePath.isAbsolute p = true →
      (PagePath.join "/edit/" p).toList = "/edit".toList ++ p.toList := by
    intro p hp
    rcases hchars : p.toList with _ | ⟨c, rest⟩
    · simp [PagePath.isAbsolute, hchars] at hp
    · have hc : c = '/' := by simpa [PagePath.isAbsolute, hchars] using hp
      subst hc
      rw [PagePath.join, String.toList_ofList, hchars]
      rfl
  have hlists := congrArg String.toList heq
  rw [hjoin h, hjoin h'] at hlists
  exact String.toList_inj.mp (List.append_cancel_left hlists)

theorem editUrl_inj {path path' : String} {span span' : Span}
    (h : PagePath.isAbsolute path = true) (h' : PagePath.isAbsolute path' = true)
    (heq : editUrl path span = editUrl path' span') : path = path' ∧ span = span' := by
  have hquestion : ∀ p, '?' ∉ (PagePath.toUrl p).toList := fun p =>
    PagePath.not_mem_toUrl (by decide) (by decide)
  have hlists := congrArg String.toList heq
  rw [toList_editUrl, toList_editUrl] at hlists
  obtain ⟨hpath, hrange⟩ := split_at_first (hquestion _) (hquestion _) hlists
  obtain ⟨hfirst, hlast⟩ := rangeText_inj (Text.not_mem_toString (by decide) _)
    (Text.not_mem_toString (by decide) _) (String.toList_inj.mp hrange)
  refine ⟨join_edit_inj h h' (PagePath.toUrl_inj (String.toList_inj.mp hpath)), ?_⟩
  cases span
  cases span'
  rw [Nat.toString_eq_repr, Nat.toString_eq_repr, Nat.repr_inj] at hfirst hlast
  rw [Span.mk.injEq]
  exact ⟨hfirst, hlast⟩

/-! ## Pages, files and images -/

/-- What the URLs start with at which a page is shown or edited, and those of a file and an image.
-/
def urlTops : List String := ["/view", "/edit", "/file", "/img"]

/-- The second character tells what a URL leads to. -/
theorem top_of_append {top top' path path' : String} (h : top ∈ urlTops) (h' : top' ∈ urlTops)
    (heq : top ++ path = top' ++ path') : top = top' := by
  have hsecond : ∀ {t p : String}, t ∈ urlTops → (t ++ p).toList[1]? = t.toList[1]? := by
    intro t p ht
    have hlength : ∀ t ∈ urlTops, 1 < t.toList.length := by decide
    rw [String.toList_append, List.getElem?_append_left (hlength t ht)]
  have hapart : ∀ t ∈ urlTops, ∀ t' ∈ urlTops, t.toList[1]? = t'.toList[1]? → t = t' := by
    decide
  refine hapart top h top' h' ?_
  rw [← hsecond (p := path) h, heq, hsecond h']

theorem append_inj_of_tops {top top' path path' : String} (h : top ∈ urlTops) (h' : top' ∈ urlTops)
    (heq : top ++ path = top' ++ path') : top = top' ∧ path = path' := by
  obtain rfl := top_of_append h h' heq
  refine ⟨rfl, ?_⟩
  have hlists := congrArg String.toList heq
  rw [String.toList_append, String.toList_append] at hlists
  exact String.toList_inj.mp (List.append_cancel_left hlists)

/-- From the URL of a page its path is read back, so different paths never have the same URL,
whether the page is shown or edited there or the path is that of a file or an image. An editor link
is that of one page and one range. And a query parameter is read back, whatever it says. -/
theorem page_urls_identify_pages :
    (∀ path, (Text.decodeUrl? (Text.encodeUrl (PagePath.toUrl path))).bind PagePath.ofUrl? =
      some path) ∧
    (∀ top ∈ urlTops, ∀ top' ∈ urlTops, ∀ path path',
      Text.encodeUrl (PagePath.toUrl (top ++ path)) =
        Text.encodeUrl (PagePath.toUrl (top' ++ path')) → top = top' ∧ path = path') ∧
    (∀ path path' span span', PagePath.isAbsolute path = true → PagePath.isAbsolute path' = true →
      Text.encodeUrl (editUrl path span) = Text.encodeUrl (editUrl path' span') →
        path = path' ∧ span = span') ∧
    (∀ s, Text.decodeUrl? (Text.encodeUrlParameter s) = some s) := by
  have hpercent : ∀ path, '%' ∉ (PagePath.toUrl path).toList := fun path =>
    PagePath.not_mem_toUrl (by decide) (by decide)
  refine ⟨PagePath.decodeUrl?_encodeUrl_toUrl, ?_, ?_, Text.decodeUrl?_encodeUrlParameter⟩
  · intro top htop top' htop' path path' h
    have hurl := Text.encodeUrl_inj (hpercent _) (hpercent _) h
    exact append_inj_of_tops htop htop' (PagePath.toUrl_inj hurl)
  · intro path path' span span' habsolute habsolute' h
    exact editUrl_inj habsolute habsolute'
      (Text.encodeUrl_inj (not_mem_editUrl path span) (not_mem_editUrl path' span') h)

end WikiHtml.Html
