-- What messages decide about. A page is the same with all of them but for the gaps that they fill,
-- so the tags are the same too, but for messages that are put in as they are.
import Mathlib.Algebra.Order.BigOperators.Group.List
import Mathlib.Algebra.Order.Group.Nat
import Mathlib.Data.List.Forall2
import WikiHtml.Proofs.Html.Drawn

namespace WikiHtml.Html

/-! ## Written with any messages -/

theorem fill_append (settings : Settings) (first second : List Piece) :
    fill settings (first ++ second) = fill settings first ++ fill settings second := by
  unfold fill
  rw [List.map_append, String.join_append]

/-- With any messages, writers have the same tags open, stand at the same place of a line, and have
written the same pieces. -/
structure Filled (writers : Settings → Writer) (pieces : List Piece) : Prop where
  stack : ∀ settings settings', (writers settings).stack = (writers settings').stack
  atNewLine : ∀ settings settings', (writers settings).atNewLine = (writers settings').atNewLine
  started : ∀ settings settings', (writers settings).lines = [] ↔ (writers settings').lines = []
  written : ∀ settings, (writers settings).written = fill settings pieces

section

variable {writers : Settings → Writer} {pieces : List Piece}

theorem filled_empty : Filled (fun _ => .empty) [] :=
  ⟨fun _ _ => rfl, fun _ _ => rfl, fun _ _ => .rfl, fun _ => rfl⟩

theorem Filled.gap (h : Filled writers pieces) (settings settings' : Settings) :
    (writers settings).gap = (writers settings').gap := by
  unfold Writer.gap Writer.indentation Writer.depth
  rw [h.stack settings settings', h.atNewLine settings settings']
  simp only [h.started settings settings']

/-- A text is written after the gap that is the same with all messages. -/
theorem Filled.text (h : Filled writers pieces) (piece : Piece) :
    ∃ gap : String, Unmarked gap.toList ∧
      Filled (fun settings => (writers settings).text (piece.fill settings))
        (pieces ++ [.fixed gap, piece]) := by
  refine ⟨(writers .standard).gap, Writer.unmarked_gap _, ?_, ?_, ?_, ?_⟩
  · intro settings settings'
    rw [Writer.stack_text, Writer.stack_text, h.stack]
  · intro settings settings'
    rw [Writer.atNewLine_text, Writer.atNewLine_text]
  · intro settings settings'
    exact iff_of_false (Writer.lines_text_ne_nil _ _) (Writer.lines_text_ne_nil _ _)
  · intro settings
    rw [Writer.written_text_gap, h.written, h.gap settings .standard, fill_append]
    simp only [fill, List.map_cons, List.map_nil, String.join_cons, String.join_nil,
      String.append_empty, Piece.fill]

theorem Filled.startLine (h : Filled writers pieces) :
    Filled (fun settings => (writers settings).startLine) pieces :=
  ⟨h.stack, fun _ _ => rfl, h.started, h.written⟩

/-- The open tags are changed in the same way with all messages. -/
theorem Filled.restack (h : Filled writers pieces) (f : List String → List String) :
    Filled (fun settings => { writers settings with stack := f (writers settings).stack }) pieces :=
  ⟨fun settings settings' => congrArg f (h.stack settings settings'), h.atNewLine, h.started,
    h.written⟩

/-- Pieces come after others if they put in given pieces as they are, and leave no tag unfinished
elsewhere. -/
def Extends (bare : List Piece) (writers : Settings → Writer) (pieces : List Piece) : Prop :=
  ∃ new, new.filter Piece.isBare = bare ∧ (∀ piece ∈ new, piece.Sound) ∧
    Filled writers (pieces ++ new)

theorem Filled.extends_nil (h : Filled writers pieces) : Extends [] writers pieces :=
  ⟨[], rfl, nofun, by rwa [List.append_nil]⟩

theorem Filled.extends_text (h : Filled writers pieces) {piece : Piece} (hpiece : piece.Sound) :
    Extends ([piece].filter Piece.isBare)
      (fun settings => (writers settings).text (piece.fill settings)) pieces := by
  obtain ⟨gap, hgap, hfilled⟩ := h.text piece
  refine ⟨[.fixed gap, piece], rfl, fun piece' hpiece' => ?_, hfilled⟩
  rcases List.mem_cons.mp hpiece' with rfl | hpiece'
  · exact finished_unmarked hgap
  · rw [List.mem_singleton.mp hpiece']
    exact hpiece

/-- An act writes its own text, and whatever else it writes leaves no tag unfinished. -/
theorem Filled.extends_act (h : Filled writers pieces) (act : Act Piece)
    (hact : ∀ piece, act = .text piece → piece.Sound) :
    Extends (barePieces [act])
      (fun settings => (writers settings).act (act.map (Piece.fill settings))) pieces := by
  cases act with
  | text piece => exact h.extends_text (hact piece rfl)
  | startLine => exact h.startLine.extends_nil
  | openTag name attributes =>
    obtain ⟨new, hbare, hsound, hfilled⟩ := h.extends_text
      (show (Piece.fixed (startTag name attributes)).Sound from finished_startTag name attributes)
    exact ⟨new, hbare, hsound, hfilled.restack (name :: ·)⟩
  | closeTag =>
    -- Which tag is closed, if any, is the same with all messages.
    rcases hstack : (writers .standard).stack with _ | ⟨name, outer⟩
    · have hclose : ∀ settings, (writers settings).closeTag = writers settings := fun settings =>
        Writer.closeTag_of_nil ((h.stack settings .standard).trans hstack)
      simp only [Act.map, Writer.act, hclose]
      exact h.extends_nil
    · have hclose : ∀ settings, (writers settings).closeTag =
          ({ writers settings with stack := (writers settings).stack.tail }).text (endTag name) :=
        fun settings => Writer.closeTag_of_cons ((h.stack settings .standard).trans hstack)
      simp only [Act.map, Writer.act, hclose]
      exact (h.restack List.tail).extends_text
        (show (Piece.fixed (endTag name)).Sound from finished_endTag name)

/-- Acts with the messages left open write pieces with the messages left open. -/
theorem Filled.extends_perform (h : Filled writers pieces) {acts : List (Act Piece)}
    (hacts : ∀ piece, .text piece ∈ acts → piece.Sound) :
    Extends (barePieces acts)
      (fun settings => (writers settings).perform (acts.map (Act.map (Piece.fill settings))))
      pieces := by
  induction acts generalizing writers pieces with
  | nil => exact h.extends_nil
  | cons act rest ih =>
    obtain ⟨new, hbare, hsound, hfilled⟩ := h.extends_act act
      fun piece hpiece => hacts piece (hpiece ▸ List.mem_cons_self)
    obtain ⟨new', hbare', hsound', hfilled'⟩ := ih hfilled
      fun piece hpiece => hacts piece (List.mem_cons_of_mem act hpiece)
    refine ⟨new ++ new', ?_, fun piece hpiece => ?_, ?_⟩
    · rw [List.filter_append, hbare, hbare', barePieces, barePieces, barePieces,
        ← List.filter_append, ← List.filterMap_append]
      rfl
    · rcases List.mem_append.mp hpiece with hpiece | hpiece
      · exact hsound piece hpiece
      · exact hsound' piece hpiece
    · rw [← List.append_assoc]
      exact hfilled'

end

/-- A page is written in the same pieces with all messages. Those that are put in as they are are
those of the document, and no other leaves a tag unfinished. -/
theorem page_filled (v : View) (d : Document) :
    ∃ pieces, pieces.filter Piece.isBare = d.barePieces none ∧ (∀ piece ∈ pieces, piece.Sound) ∧
      ∀ settings, (page (v.withSettings settings) d).written = fill settings pieces := by
  obtain ⟨acts, hwords, hsounds, -, hpage⟩ :=
    page_performed (d := d) (fun _ => True) v fun _ _ => trivial
  obtain ⟨pieces, hbare, hsound, hfilled⟩ := filled_empty.extends_perform hsounds
  refine ⟨pieces, hbare.trans hwords, hsound, fun settings => ?_⟩
  rw [hpage settings]
  exact hfilled.written settings

/-! ## Tags with different messages -/

/-- Two tags are the same, or they are the image of a link to the editor or the search field with
two messages in an attribute. -/
def SameTag (settings settings' : Settings) (tag tag' : String) : Prop :=
  tag' = tag ∨
    (∃ mark, tag = editImage settings mark ∧ tag' = editImage settings' mark) ∨
    (tag = searchField settings ∧ tag' = searchField settings')

theorem unmarked_attr (name value : String) : Unmarked (attr name value).toList := by
  unfold attr
  simp only [String.toList_append]
  exact unmarked_append (unmarked_append (unmarked_append (unmarked_escape name)
    ⟨by decide, by decide⟩) (unmarked_escape value)) ⟨by decide, by decide⟩

theorem unmarked_attrs (pairs : List (String × String)) : Unmarked (attrs pairs).toList := by
  unfold attrs
  induction pairs with
  | nil => exact ⟨by decide, by decide⟩
  | cons pair rest ih =>
    by_cases hrest : rest = []
    · subst hrest
      rw [List.map_cons, List.map_nil, String.intercalate_singleton]
      exact unmarked_attr _ _
    · rw [List.map_cons, String.intercalate_cons_of_ne_nil (by simpa using hrest),
        String.toList_append, String.toList_append]
      exact unmarked_append (unmarked_append (unmarked_attr _ _) ⟨by decide, by decide⟩) ih

/-- A start tag whose attributes are escaped is one tag. -/
theorem hasTags_startTag {name attributes : String} (hname : '>' ∉ name.toList)
    (h : Unmarked attributes.toList) :
    HasTags (startTag name attributes).toList [startTag name attributes] := by
  obtain ⟨text, htext, htag⟩ : ∃ text, '>' ∉ text ∧
      (startTag name attributes).toList = '<' :: text ++ ['>'] := by
    unfold startTag
    split
    · exact ⟨name.toList, hname, by simp⟩
    · exact ⟨name.toList ++ ' ' :: attributes.toList, by simp [hname, h.2], by simp⟩
  have htags := hasTags_tag htext
  rwa [← htag, String.ofList_toList] at htags

section

variable {settings settings' : Settings} {pieces : List Piece} {piece : Piece}

theorem hasTags_editImage (settings : Settings) (mark : EditMark) :
    HasTags (editImage settings mark).toList [editImage settings mark] :=
  hasTags_startTag (by decide) (unmarked_attrs _)

theorem hasTags_searchField (settings : Settings) :
    HasTags (searchField settings).toList [searchField settings] :=
  hasTags_startTag (by decide) (unmarked_attrs _)

/-- The tags of pieces that leave no tag unfinished are those of the pieces. -/
theorem tagTexts_fill (h : ∀ piece ∈ pieces, Finished (piece.fill settings)) :
    tagTexts (fill settings pieces) =
      pieces.flatMap fun piece => tagTexts (piece.fill settings) := by
  refine HasTags.tagTexts ?_
  induction pieces with
  | nil => exact hasTags_nil
  | cons piece rest ih =>
    obtain ⟨tags, htags⟩ := h piece List.mem_cons_self
    have hfill : fill settings (piece :: rest) = piece.fill settings ++ fill settings rest :=
      String.join_cons
    rw [hfill, String.toList_append, List.flatMap_cons, htags.tagTexts]
    exact htags.append (ih fun p hp => h p (List.mem_cons_of_mem piece hp))

/-- A piece leaves no tag unfinished, whether or not it is put in as it is. -/
theorem Piece.finished_fill (hsound : piece.Sound)
    (hhtml : ∀ text, piece = .html text → Finished text)
    (hwords : ∀ key, piece = .words key → Finished (settings.message key)) :
    Finished (piece.fill settings) := by
  cases piece with
  | fixed text => exact hsound
  | html text => exact hhtml text rfl
  | editImage mark => exact ⟨_, hasTags_editImage settings mark⟩
  | searchField => exact ⟨_, hasTags_searchField settings⟩
  | words key => exact hwords key rfl

/-- A piece has the same tags with any two messages, if these have no marks. -/
theorem Piece.sameTags (hwords : ∀ key, piece = .words key →
      Unmarked (settings.message key).toList ∧ Unmarked (settings'.message key).toList) :
    List.Forall₂ (SameTag settings settings') (tagTexts (piece.fill settings))
      (tagTexts (piece.fill settings')) := by
  cases piece with
  | fixed text => exact List.forall₂_same.mpr fun _ _ => .inl rfl
  | html text => exact List.forall₂_same.mpr fun _ _ => .inl rfl
  | editImage mark =>
    simp only [Piece.fill, (hasTags_editImage _ mark).tagTexts]
    exact .cons (.inr (.inl ⟨mark, rfl, rfl⟩)) .nil
  | searchField =>
    simp only [Piece.fill, (hasTags_searchField _).tagTexts]
    exact .cons (.inr (.inr ⟨rfl, rfl⟩)) .nil
  | words key =>
    obtain ⟨hplain, hplain'⟩ := hwords key rfl
    simp only [Piece.fill, (hasTags_unmarked hplain).tagTexts, (hasTags_unmarked hplain').tagTexts]
    exact .nil

theorem forall₂_flatMap {f g : Piece → List String} {R : String → String → Prop}
    (h : ∀ piece ∈ pieces, List.Forall₂ R (f piece) (g piece)) :
    List.Forall₂ R (pieces.flatMap f) (pieces.flatMap g) := by
  induction pieces with
  | nil => exact .nil
  | cons piece rest ih =>
    exact List.rel_append (h piece List.mem_cons_self)
      (ih fun p hp => h p (List.mem_cons_of_mem piece hp))

end

/-! ## Pages -/

/-- A document in which HTML that is put in as it is leaves no tag unfinished. -/
def TidyHtml (d : Document) : Prop :=
  ∀ text, .html text ∈ d.barePieces none → Finished text

/-- The settings in which all keys have the same message. -/
def saying (keys : List String) (message : String) : Settings :=
  { Settings.standard with messages := keys.map (·, message) }

theorem message_saying {keys : List String} {key : String} (h : key ∈ keys) (message : String) :
    (saying keys message).message key = message := by
  unfold Settings.message saying
  dsimp only
  induction keys with
  | nil => cases h
  | cons first rest ih =>
    rw [List.map_cons, List.lookup_cons]
    by_cases hfirst : key = first
    · simp [hfirst]
    · rw [beq_false_of_ne hfirst]
      exact ih ((List.mem_cons.mp h).resolve_left hfirst)

section

variable {settings settings' : Settings} {pieces : List Piece}

theorem sameTags_fill (hsound : ∀ piece ∈ pieces, piece.Sound)
    (hhtml : ∀ text, .html text ∈ pieces → Finished text)
    (hwords : ∀ key, .words key ∈ pieces →
      Unmarked (settings.message key).toList ∧ Unmarked (settings'.message key).toList) :
    List.Forall₂ (SameTag settings settings') (tagTexts (fill settings pieces))
      (tagTexts (fill settings' pieces)) := by
  have hfinished : ∀ piece ∈ pieces, Finished (piece.fill settings) := fun piece hp =>
    Piece.finished_fill (hsound piece hp) (fun text ht => hhtml text (ht ▸ hp))
      fun key hk => finished_unmarked (hwords key (hk ▸ hp)).1
  have hfinished' : ∀ piece ∈ pieces, Finished (piece.fill settings') := fun piece hp =>
    Piece.finished_fill (hsound piece hp) (fun text ht => hhtml text (ht ▸ hp))
      fun key hk => finished_unmarked (hwords key (hk ▸ hp)).2
  rw [tagTexts_fill hfinished, tagTexts_fill hfinished']
  exact forall₂_flatMap fun piece hp => Piece.sameTags fun key hk => hwords key (hk ▸ hp)

/-- If the messages of commands are a tag instead of nothing, there are more tags. -/
theorem more_tags {keys : List String} (hsound : ∀ piece ∈ pieces, piece.Sound)
    (hhtml : ∀ text, .html text ∈ pieces → Finished text)
    (hwords : ∀ key, .words key ∈ pieces → key ∈ keys) {key : String} (hkey : .words key ∈ pieces) :
    (tagTexts (fill (saying keys "") pieces)).length <
      (tagTexts (fill (saying keys "<b>") pieces)).length := by
  have hnone : tagTexts "" = [] := by decide
  have hone : tagTexts "<b>" = ["<b>"] := by decide
  have hfinished : ∀ message, Finished message → ∀ piece ∈ pieces,
      Finished (piece.fill (saying keys message)) := fun message hmessage piece hp =>
    Piece.finished_fill (hsound piece hp) (fun text ht => hhtml text (ht ▸ hp)) fun key hk => by
      rw [message_saying (hwords key (hk ▸ hp))]
      exact hmessage
  rw [tagTexts_fill (hfinished "" (finished_unmarked ⟨by decide, by decide⟩)),
    tagTexts_fill (hfinished "<b>" (finished_startTag "b" "")), List.length_flatMap,
    List.length_flatMap]
  refine List.sum_lt_sum _ _ (fun piece hp => ?_) ⟨.words key, hkey, ?_⟩
  · by_cases hpiece : ∃ key, piece = .words key
    · obtain ⟨key, rfl⟩ := hpiece
      simp only [Piece.fill, message_saying (hwords key hp), hnone]
      exact Nat.zero_le _
    · exact (Piece.sameTags fun key hk => absurd ⟨key, hk⟩ hpiece).length_eq.le
  · simp only [Piece.fill, message_saying (hwords key hkey), hnone, hone]
    decide

end

/-- Messages fill gaps in a page that is otherwise the same: the images of links to the editor, the
search field, and the texts of links to commands that hold nothing. If HTML that is put in as it is
leaves no tag unfinished, then the tags are the same with all messages, up to the messages that are
attributes, as long as the texts of those links have no marks; and they are the same whatever these
texts are only if there is no such link. -/
theorem messages_change_tags_only_as_texts_of_commands (v : View) (d : Document) :
    (∃ pieces, pieces.filter Piece.isBare = d.barePieces none ∧
      ∀ settings, "\n".intercalate (page (v.withSettings settings) d).body = fill settings pieces) ∧
    (TidyHtml d →
      let tags := fun settings =>
        tagTexts ("\n".intercalate (page (v.withSettings settings) d).body)
      (∀ settings settings', (∀ key, .words key ∈ d.barePieces none →
          Unmarked (settings.message key).toList ∧ Unmarked (settings'.message key).toList) →
        List.Forall₂ (SameTag settings settings') (tags settings) (tags settings')) ∧
      ((∀ settings settings',
          List.Forall₂ (SameTag settings settings') (tags settings) (tags settings')) ↔
        ∀ key, .words key ∉ d.barePieces none)) := by
  obtain ⟨pieces, hbare, hsound, hpage⟩ := page_filled v d
  -- The bare pieces of the page are all that the hypotheses on HTML and messages are about.
  have hmem : ∀ {piece : Piece}, piece.isBare = true →
      (piece ∈ pieces ↔ piece ∈ d.barePieces none) :=
    fun h => by rw [← hbare, List.mem_filter, and_iff_left h]
  refine ⟨⟨pieces, hbare, hpage⟩, fun htidy => ?_⟩
  have hhtml : ∀ text, .html text ∈ pieces → Finished text := fun text ht =>
    htidy text ((hmem rfl).mp ht)
  have htags : ∀ settings, tagTexts ("\n".intercalate (page (v.withSettings settings) d).body) =
      tagTexts (fill settings pieces) := fun settings => congrArg tagTexts (hpage settings)
  have hsame : ∀ settings settings', (∀ key, .words key ∈ d.barePieces none →
      Unmarked (settings.message key).toList ∧ Unmarked (settings'.message key).toList) →
      List.Forall₂ (SameTag settings settings') (tagTexts (fill settings pieces))
        (tagTexts (fill settings' pieces)) := fun settings settings' h =>
    sameTags_fill hsound hhtml fun key hk => h key ((hmem rfl).mp hk)
  simp only [htags]
  refine ⟨hsame, fun h key hkey => ?_, fun h settings settings' =>
    hsame settings settings' fun key hkey => absurd hkey (h key)⟩
  have hlength := (h (saying (pieces.filterMap Piece.key?) "")
    (saying (pieces.filterMap Piece.key?) "<b>")).length_eq
  exact (more_tags hsound hhtml (fun key hk => List.mem_filterMap.mpr ⟨_, hk, rfl⟩)
    ((hmem rfl).mpr hkey)).ne hlength

/-- A link to the start page of the wiki. -/
def startPageLink : Document :=
  .node (.wrap (.linkWiki "startpage") none) none

/-- A message that looks like a tag is one in the text of a link. -/
theorem a_message_becomes_a_tag :
    (page ⟨.empty, saying ["ViewPageHandler.wiki.startpage"] "<b>", true⟩ startPageLink).body =
      ["<a href=\"/\"><b></a>"] := by
  decide

end WikiHtml.Html
