-- What a rendering does, written down as a script: the acts that it performs on the writer, with
-- the messages left open. A script depends on the lists that stand open on top, and on whether a
-- block came before; it depends neither on the tags around nor on what is written there.
import WikiHtml.Proofs.Document.Parts
import WikiHtml.Proofs.Html.Acts
import WikiHtml.Proofs.Html.Nesting
import WikiHtml.Proofs.Html.Scan

namespace WikiHtml

namespace Html

/-! ## Texts with messages left open -/

/-- The image in a link to the editor. -/
def editImage (settings : Settings) (mark : EditMark) : String :=
  startTag "img"
    (attrs [("src", mark.image), ("title", settings.message mark.message), ("alt", "")])

/-- A range of the source text of a page. -/
structure EditRange where
  path : String
  span : Span
  deriving DecidableEq, Repr

/-- The start of a link to the editor. -/
def editStart (range : EditRange) (mark : EditMark) : String :=
  startTag "a" (attr "class" mark.cssClass ++ " "
    ++ urlAttr "href" (editUrl range.path range.span))

/-- A piece of what is written: a text that is the same with all messages, HTML that is put in as it
is, the image of a link to the editor, the search field, or the message of a command. -/
inductive Piece where
  | fixed (text : String)
  | html (text : String)
  | editImage (mark : EditMark)
  | searchField
  | words (key : String)

namespace Piece

/-- A piece with its message. -/
def fill (settings : Settings) : Piece → String
  | .fixed text | .html text => text
  | .editImage mark => Html.editImage settings mark
  | .searchField => Html.searchField settings
  | .words key => settings.message key

/-- The key of the message that a piece is. -/
def key? : Piece → Option String
  | .words key => some key
  | _ => none

/-- The mark of the link to the editor that a piece is the image of. -/
def mark? : Piece → Option EditMark
  | .editImage mark => some mark
  | _ => none

/-- Whether a piece is put in as it is. -/
def isBare : Piece → Bool
  | .html _ | .words _ => true
  | _ => false

/-- A piece leaves no tag unfinished, unless it is put in as it is. -/
def Sound : Piece → Prop
  | .fixed text => Finished text
  | _ => True

end Piece

/-- Pieces with their messages, joined. -/
def fill (settings : Settings) (pieces : List Piece) : String :=
  String.join (pieces.map (Piece.fill settings))

/-- The piece that an act writes. -/
def Act.piece? : Act Piece → Option Piece
  | .text piece => some piece
  | _ => none

/-- The pieces that acts put in as they are. -/
def barePieces (acts : List (Act Piece)) : List Piece :=
  (acts.filterMap Act.piece?).filter Piece.isBare

/-! ## Links to the editor -/

/-- Every image of a link to the editor is written right after the start of the link, which is for a
range with `ok`. -/
def EditsOnly (ok : EditRange → Prop) (acts : List (Act Piece)) : Prop :=
  ∀ before mark after, acts = before ++ .text (.editImage mark) :: after →
    ∃ lead range, before = lead ++ [.text (.fixed (editStart range mark))] ∧ ok range

section

variable {ok : EditRange → Prop} {acts acts' : List (Act Piece)}

theorem EditsOnly.append (h : EditsOnly ok acts) (h' : EditsOnly ok acts') :
    EditsOnly ok (acts ++ acts') := by
  intro before mark after hsplit
  rcases List.append_eq_append_iff.mp hsplit with ⟨mid, rfl, hmid⟩ | ⟨mid, rfl, hmid⟩
  · obtain ⟨lead, range, rfl, hok⟩ := h' mid mark after hmid
    exact ⟨acts ++ lead, range, by rw [List.append_assoc], hok⟩
  · rcases mid with _ | ⟨act, mid⟩
    · obtain ⟨lead, range, hlead, hok⟩ := h' [] mark after hmid.symm
      simp at hlead
    · obtain ⟨rfl, rfl⟩ := List.cons.inj hmid
      exact h before mark mid rfl

theorem editsOnly_of_mark? (h : ∀ act ∈ acts, act.piece?.bind Piece.mark? = none) :
    EditsOnly ok acts := by
  rintro before mark after rfl
  have hnone := h (.text (.editImage mark)) (by simp)
  cases hnone

/-- A link to the editor. -/
theorem editsOnly_link {range : EditRange} (hok : ok range) (mark : EditMark) (last : String) :
    EditsOnly ok
      [.text (.fixed (editStart range mark)), .text (.editImage mark), .text (.fixed last)] := by
  rintro (_ | ⟨first, _ | ⟨second, before⟩⟩) mark' after hsplit
  · simp at hsplit
  · simp only [List.cons_append, List.nil_append, List.cons.injEq, Act.text.injEq,
      Piece.editImage.injEq] at hsplit
    obtain ⟨rfl, rfl, _⟩ := hsplit
    exact ⟨[], range, rfl, hok⟩
  · rcases before with _ | ⟨third, before⟩ <;> simp at hsplit

end

end Html

namespace Document

open Html in
/-- The piece of an element that is put in as it is: HTML, or the message of a command without a
text of its own. -/
def barePiece? : Element Document → Option Piece
  | .wrap (.linkWiki name) none => (command? none name).map fun command => .words command.message
  | .leaf (.html text) => some (.html text)
  | _ => none

/-- A link to a file hides what it holds where there is no page around it. -/
def hidesHeld (context : Context) : Element Document → Bool
  | .wrap (.linkLocalFile _) _ => context.isNone
  | _ => false

/-- What a search for pieces that are put in as they are finds at an element. -/
def bareVisit (context : Context) (d : Document) : List Html.Piece × Option Context :=
  ((barePiece? d.element).toList,
    if hidesHeld context d.element then none else some (contextOf context d.element))

/-- The pieces of a document that are put in as they are, for the page that it belongs to. -/
def barePieces (context : Context) (d : Document) : List Html.Piece :=
  d.search bareVisit context

theorem barePieces_node (context : Context) (e : Element Document) (span : Option Span) :
    barePieces context (.node e span) = (barePiece? e).toList ++
      if hidesHeld context e then []
      else e.children.flatMap (barePieces (contextOf context e)) := by
  have hvisit : bareVisit context (.node e span) = ((barePiece? e).toList,
      if hidesHeld context e then none else some (contextOf context e)) := rfl
  unfold barePieces
  rw [search_node, hvisit]
  dsimp only
  split
  · rfl
  · rw [Option.toList_some, List.flatMap_singleton]

end Document

namespace Html

/-! ## Scripts -/

/-- The view with other settings. -/
def View.withSettings (v : View) (settings : Settings) : View :=
  { v with settings := settings }

/-- What a step of a rendering does: the acts on the writer, whether a block comes before what
follows, and the kinds of the placeholders that are passed over. -/
structure Script where
  acts : List (Act Piece)
  afterBlock : Bool
  skipped : List String

namespace Script

/-- What has been rendered after a script, with the messages of some settings. -/
def play (settings : Settings) (script : Script) (s : Rendering) : Rendering where
  writer := s.writer.perform (script.acts.map (Act.map (Piece.fill settings)))
  afterBlock := script.afterBlock
  skipped := script.skipped ++ s.skipped

/-- One script after another. -/
def andThen (first second : Script) : Script where
  acts := first.acts ++ second.acts
  afterBlock := second.afterBlock
  skipped := second.skipped ++ first.skipped

/-- A script puts in some pieces as they are, and leaves no tag unfinished in any other text. Its
links to the editor are for ranges with `ok`. -/
structure Writes (script : Script) (ok : EditRange → Prop) (bare : List Piece) : Prop where
  bare : barePieces script.acts = bare
  sound : ∀ piece, .text piece ∈ script.acts → piece.Sound
  edits : EditsOnly ok script.acts

variable {ok : EditRange → Prop} {first second : Script} {bare bare' : List Piece}

theorem play_andThen (settings : Settings) (first second : Script) (s : Rendering) :
    (first.andThen second).play settings s = second.play settings (first.play settings s) := by
  simp only [play, andThen, List.map_append, Writer.perform_append, List.append_assoc]

theorem Writes.andThen (h : first.Writes ok bare) (h' : second.Writes ok bare') :
    (first.andThen second).Writes ok (bare ++ bare') := by
  refine ⟨?_, fun piece hpiece => ?_, h.edits.append h'.edits⟩
  · simp only [Script.andThen, barePieces, List.filterMap_append, List.filter_append]
    exact congrArg₂ (· ++ ·) h.bare h'.bare
  · rcases List.mem_append.mp hpiece with hpiece | hpiece
    · exact h.sound piece hpiece
    · exact h'.sound piece hpiece

/-- Acts that write no text of their own. -/
theorem writes_nothing {script : Script} (h : ∀ act ∈ script.acts, act.piece? = none) :
    script.Writes ok [] := by
  refine ⟨?_, fun piece hpiece => (nomatch h _ hpiece),
    editsOnly_of_mark? fun act hact => by rw [h act hact, Option.bind_none]⟩
  rw [barePieces, List.filterMap_eq_nil_iff.mpr h]
  rfl

end Script

/-! ## Steps -/

/-- A step of a rendering goes by a script, whatever tags are open. It leaves none of its own open,
and puts in some pieces as they are. Its links to the editor are for ranges with `ok`. -/
def Blind (ok : EditRange → Prop) (bare : List Piece)
    (step : Settings → Rendering → Rendering) : Prop :=
  ∀ afterBlock, ∃ script : Script, own? [] script.acts = some [] ∧ script.Writes ok bare ∧
    ∀ settings s, s.afterBlock = afterBlock → step settings s = script.play settings s

/-- A step of a rendering goes by a script for the tags on top of the open tags, below which no list
is open. It leaves all tags below as they are, and puts in some pieces as they are. Its links to the
editor are for ranges with `ok`. -/
def Scripted (ok : EditRange → Prop) (bare : List Piece)
    (step : Settings → Rendering → Rendering) : Prop :=
  ∀ own afterBlock, ∃ (script : Script) (own' : List String),
    own? own script.acts = some own' ∧ script.Writes ok bare ∧
    ∀ settings s outer, listRun outer = [] → s.writer.stack = own ++ outer →
      s.afterBlock = afterBlock → step settings s = script.play settings s

section

variable {ok : EditRange → Prop} {bare bare' : List Piece}
  {first second content : Settings → Rendering → Rendering}

theorem Blind.comp (h : Blind ok bare first) (h' : Blind ok bare' second) :
    Blind ok (bare ++ bare') fun settings s => second settings (first settings s) := by
  intro afterBlock
  obtain ⟨script, hown, hwrites, hplay⟩ := h afterBlock
  obtain ⟨script', hown', hwrites', hplay'⟩ := h' script.afterBlock
  refine ⟨script.andThen script', own?_append hown hown', hwrites.andThen hwrites',
    fun settings s hs => ?_⟩
  dsimp only
  rw [hplay settings s hs, hplay' settings _ rfl, Script.play_andThen]

theorem Script.stack_play {script : Script} {own own' outer : List String} {s : Rendering}
    (hown : own? own script.acts = some own') (hstack : s.writer.stack = own ++ outer)
    (settings : Settings) : (script.play settings s).writer.stack = own' ++ outer :=
  Writer.stack_perform hstack (by rw [own?_map]; exact hown)

theorem Scripted.comp (h : Scripted ok bare first) (h' : Scripted ok bare' second) :
    Scripted ok (bare ++ bare') fun settings s => second settings (first settings s) := by
  intro own afterBlock
  obtain ⟨script, own', hown, hwrites, hplay⟩ := h own afterBlock
  obtain ⟨script', own'', hown', hwrites', hplay'⟩ := h' own' script.afterBlock
  refine ⟨script.andThen script', own'', own?_append hown hown', hwrites.andThen hwrites',
    fun settings s outer houter hstack hs => ?_⟩
  dsimp only
  rw [hplay settings s outer houter hstack hs,
    hplay' settings _ outer houter (script.stack_play hown hstack settings) rfl,
    Script.play_andThen]

theorem Blind.scripted (h : Blind ok bare first) : Scripted ok bare first := by
  intro own afterBlock
  obtain ⟨script, hown, hwrites, hplay⟩ := h afterBlock
  exact ⟨script, own, own?_below hown own, hwrites, fun settings s _ _ _ hs => hplay settings s hs⟩

/-- A step that puts in nothing as it is, after another one. -/
theorem Scripted.andThen (h : Scripted ok bare first) (h' : Blind ok [] second) :
    Scripted ok bare fun settings s => second settings (first settings s) := by
  have hcomp := h.comp h'.scripted
  rwa [List.append_nil] at hcomp

/-! ## Writing -/

theorem blind_id : Blind ok [] fun _ s => s :=
  fun afterBlock => ⟨⟨[], afterBlock, []⟩, rfl, Script.writes_nothing nofun,
    fun _ _ hs => hs ▸ rfl⟩

theorem blind_startLine : Blind ok [] fun _ s => s.startLine :=
  fun afterBlock => ⟨⟨[.startLine], afterBlock, []⟩, rfl,
    Script.writes_nothing fun _ hact => List.mem_singleton.mp hact ▸ rfl, fun _ _ hs => hs ▸ rfl⟩

theorem blind_skip (kind : String) : Blind ok [] fun _ s => s.skip kind :=
  fun afterBlock => ⟨⟨[], afterBlock, [kind]⟩, rfl, Script.writes_nothing nofun,
    fun _ _ hs => hs ▸ rfl⟩

theorem blind_afterBlock (afterBlock : Bool) :
    Blind ok [] fun _ s => { s with afterBlock := afterBlock } :=
  fun _ => ⟨⟨[], afterBlock, []⟩, rfl, Script.writes_nothing nofun, fun _ _ _ => rfl⟩

theorem blind_piece (piece : Piece) (h : piece.Sound) (hmark : piece.mark? = none) :
    Blind ok ([piece].filter Piece.isBare) fun settings s => s.html (piece.fill settings) :=
  fun afterBlock => ⟨⟨[.text piece], afterBlock, []⟩, rfl,
    ⟨rfl, fun piece' hpiece => by
      obtain rfl : piece' = piece := by simpa using hpiece
      exact h, editsOnly_of_mark? fun act hact => List.mem_singleton.mp hact ▸ hmark⟩,
    fun _ _ hs => hs ▸ rfl⟩

theorem blind_html {text : String} (h : Finished text) : Blind ok [] fun _ s => s.html text :=
  blind_piece (.fixed text) h rfl

theorem blind_text (text : String) : Blind ok [] fun _ s => s.text text :=
  blind_html (finished_escape text)

theorem finished_lineBreak : Finished lineBreak :=
  finished_startTag "br" ""

theorem blind_newLine : Blind ok [] fun _ s => s.write Writer.newLine :=
  (blind_html finished_lineBreak).comp blind_startLine

/-- A step that depends on whether a block came before. -/
theorem Blind.ite (h : Blind ok bare first) (h' : Blind ok bare second) (p : Bool → Bool) :
    Blind ok bare fun settings s =>
      if p s.afterBlock then first settings s else second settings s := by
  intro afterBlock
  by_cases hp : p afterBlock
  · obtain ⟨script, hown, hwrites, hplay⟩ := h afterBlock
    refine ⟨script, hown, hwrites, fun settings s hs => ?_⟩
    exact (if_pos (hs ▸ hp)).trans (hplay settings s hs)
  · obtain ⟨script, hown, hwrites, hplay⟩ := h' afterBlock
    refine ⟨script, hown, hwrites, fun settings s hs => ?_⟩
    exact (if_neg (hs ▸ hp)).trans (hplay settings s hs)

/-! ## Tags -/

/-- The script that closes so many tags. -/
def Script.closings (n : Nat) (afterBlock : Bool) : Script where
  acts := List.replicate n .closeTag
  afterBlock := afterBlock
  skipped := []

theorem Script.writes_closings (n : Nat) (afterBlock : Bool) :
    (Script.closings n afterBlock).Writes ok [] :=
  Script.writes_nothing fun _ hact => List.eq_of_mem_replicate hact ▸ rfl

theorem Script.play_closings (settings : Settings) (n : Nat) (s : Rendering) :
    (Script.closings n s.afterBlock).play settings s = s.write (·.closeTags n) := by
  unfold play closings
  rw [List.map_replicate]
  exact congrArg (Rendering.mk · s.afterBlock s.skipped) (s.writer.perform_closeTags n)

/-- The script that opens a tag. -/
def Script.opening (name attributes : String) (afterBlock : Bool) : Script where
  acts := [.openTag name attributes]
  afterBlock := afterBlock
  skipped := []

theorem Script.writes_opening (name attributes : String) (afterBlock : Bool) :
    (Script.opening name attributes afterBlock).Writes ok [] :=
  Script.writes_nothing fun _ hact => List.mem_singleton.mp hact ▸ rfl

/-- The script of content in a tag of its own. -/
def Script.inTag (script : Script) (name attributes : String) (closed : Nat) : Script :=
  (Script.opening name attributes script.afterBlock).andThen
    (script.andThen (Script.closings closed script.afterBlock))

theorem Script.Writes.inTag {script : Script} (h : script.Writes ok bare) (name attributes : String)
    (closed : Nat) : (script.inTag name attributes closed).Writes ok bare := by
  have hall := (Script.writes_opening name attributes script.afterBlock).andThen
    (h.andThen (Script.writes_closings closed script.afterBlock))
  rwa [List.append_nil, List.nil_append] at hall

theorem Script.play_inTag (settings : Settings) (script : Script) (name attributes : String)
    (closed : Nat) (s : Rendering) :
    (script.inTag name attributes closed).play settings s =
      (script.play settings (s.write (·.openTag name attributes))).write (·.closeTags closed) := by
  unfold Script.inTag
  rw [Script.play_andThen, Script.play_andThen]
  exact Script.play_closings settings closed _

theorem scripted_openTag (name attributes : String) :
    Scripted ok [] fun _ s => s.write (·.openTag name attributes) :=
  fun own afterBlock => ⟨.opening name attributes afterBlock, name :: own, rfl,
    Script.writes_opening name attributes afterBlock, fun _ _ _ _ _ hs => hs ▸ rfl⟩

/-- Content in a tag of its own goes by a script where the content does. -/
theorem tag_eq_play {script : Script} {name attributes : String} {own own' outer : List String}
    {s : Rendering} {settings : Settings} (hown : own? (name :: own) script.acts = some own')
    (hstack : s.writer.stack = own ++ outer)
    (hplay : content settings (s.write (·.openTag name attributes)) =
      script.play settings (s.write (·.openTag name attributes))) :
    s.tag name attributes (content settings) =
      (script.inTag name attributes (own'.length - own.length)).play settings s := by
  have hopened : (s.write (·.openTag name attributes)).writer.stack = (name :: own) ++ outer :=
    (Writer.stack_openTag _ _ _).trans (congrArg (name :: ·) hstack)
  have hclosed : (script.play settings (s.write (·.openTag name attributes))).writer.depth -
      s.writer.depth = own'.length - own.length := by
    unfold Writer.depth
    rw [script.stack_play hown hopened settings, hstack, List.length_append, List.length_append]
    omega
  rw [Script.play_inTag, ← hclosed, ← hplay]
  rfl

/-- In a tag that is no list no lists are open, so what tags are open around it does not matter. -/
theorem Scripted.tag (h : Scripted ok bare content) {name : String}
    (hname : ListKind.ofTag? name = none) (attributes : String) :
    Blind ok bare fun settings s => s.tag name attributes (content settings) := by
  intro afterBlock
  -- For the content the tag itself is one of those around, and its own tags start anew.
  obtain ⟨script, own, hown, hwrites, hplay⟩ := h [] afterBlock
  have hbelow := own?_below hown [name]
  refine ⟨script.inTag name attributes (own ++ [name]).length, ?_, hwrites.inTag _ _ _,
    fun settings s hs => ?_⟩
  · have hclose := own?_closeTags (α := Piece) (own ++ [name]) []
    rw [List.append_nil] at hclose
    exact own?_append rfl (own?_append hbelow hclose)
  · exact tag_eq_play hbelow rfl
      (hplay settings _ _ (listRun_cons hname _) (Writer.stack_openTag _ _ _) hs)

/-- A tag that is a list joins the lists that are open. -/
theorem Scripted.listTag (h : Scripted ok bare content) (name attributes : String) :
    Scripted ok bare fun settings s => s.tag name attributes (content settings) := by
  intro own afterBlock
  obtain ⟨script, own', hown, hwrites, hplay⟩ := h (name :: own) afterBlock
  -- The content may have ended lists on top, so fewer tags may be left than there were before.
  have hclose : own? own' (List.replicate (own'.length - own.length) (.closeTag : Act Piece)) =
      some (own'.drop (own'.length - own.length)) := by
    have hclose := own?_closeTags (α := Piece) (own'.take (own'.length - own.length))
      (own'.drop (own'.length - own.length))
    rw [List.take_append_drop, List.length_take, Nat.min_eq_left (Nat.sub_le _ _)] at hclose
    exact hclose
  refine ⟨script.inTag name attributes (own'.length - own.length), _,
    own?_append rfl (own?_append hown hclose), hwrites.inTag _ _ _,
    fun settings s outer houter hstack hs => tag_eq_play hown hstack ?_⟩
  exact hplay settings _ outer houter
    ((Writer.stack_openTag _ _ _).trans (congrArg (name :: ·) hstack)) hs

theorem Scripted.div (h : Scripted ok bare content) (cssClass : String) :
    Blind ok bare fun settings s => s.div cssClass (content settings) :=
  h.tag (by decide) _

theorem blind_verticalSpace : Blind ok [] fun _ s => s.verticalSpace :=
  (blind_id.scripted.div "verticalspace").comp blind_startLine

/-! ## Lists -/

/-- Acts that are done again and again write no text of their own if none of them does. -/
theorem writes_repeated {acts : List (Act Piece)} (h : ∀ act ∈ acts, act.piece? = none) (n : Nat)
    (afterBlock : Bool) :
    (⟨(List.replicate n acts).flatten, afterBlock, []⟩ : Script).Writes ok [] := by
  refine Script.writes_nothing fun act hact => ?_
  obtain ⟨acts', hacts, hact⟩ := List.mem_flatten.mp hact
  exact h act (List.eq_of_mem_replicate hacts ▸ hact)

theorem writes_listClosings (n : Nat) (afterBlock : Bool) :
    (⟨listClosings n, afterBlock, []⟩ : Script).Writes ok [] :=
  writes_repeated (by simp [Act.piece?]) n afterBlock

theorem writes_listOpenings (kind : ListKind) (n : Nat) (afterBlock : Bool) :
    (⟨listOpenings kind n, afterBlock, []⟩ : Script).Writes ok [] :=
  writes_repeated (by simp [Act.piece?]) n afterBlock

theorem own?_closeSome {own : List String} {n : Nat} (h : n ≤ own.length) :
    own? own (listClosings n : List (Act Piece)) = some (own.drop n) := by
  have hclose := own?_listClosings (α := Piece) (own.take n) (own.drop n)
  rw [List.take_append_drop, List.length_take, Nat.min_eq_left h] at hclose
  exact hclose

theorem length_listRun_le (own : List String) : (listRun own).length ≤ own.length := by
  induction own with
  | nil => exact le_rfl
  | cons name rest ih =>
    unfold listRun
    split
    · exact Nat.succ_le_succ ih
    · exact Nat.zero_le _

theorem scripted_finishLists : Scripted ok [] fun _ s => s.write Writer.finishLists := by
  intro own afterBlock
  refine ⟨⟨listClosings (listRun own).length, afterBlock, []⟩, _,
    own?_closeSome (length_listRun_le own), writes_listClosings _ _,
    fun settings s outer houter hstack hs => ?_⟩
  simp only [Script.play, map_listClosings, Writer.perform_listClosings, ← hs, List.nil_append]
  unfold Rendering.write Writer.finishLists
  rw [hstack, listRun_append own houter]

theorem surplus_le (run : List ListKind) (level : Nat) (kind : ListKind) :
    Writer.surplus run level kind ≤ run.length := by
  unfold Writer.surplus
  dsimp only
  split
  · rename_i innermost hsome
    have hlt : run.length - level < run.length := (List.getElem?_eq_some_iff.mp hsome).choose
    split <;> omega
  · omega

theorem scripted_nestLists (level : Nat) (kind : ListKind) :
    Scripted ok [] fun _ s => s.write (·.nestLists level kind) := by
  intro own afterBlock
  have hclosed := own?_closeSome
    ((surplus_le (listRun own) level kind).trans (length_listRun_le own))
  refine ⟨Script.andThen
      ⟨listClosings (Writer.surplus (listRun own) level kind), afterBlock, []⟩
      ⟨listOpenings kind (level - ((listRun own).length - Writer.surplus (listRun own) level kind)),
        afterBlock, []⟩,
    _, own?_append hclosed (own?_listOpenings kind _ _),
    (writes_listClosings _ _).andThen (writes_listOpenings _ _ _),
    fun settings s outer houter hstack hs => ?_⟩
  rw [Script.play_andThen]
  simp only [Script.play, map_listClosings, map_listOpenings, Writer.perform_listClosings,
    Writer.perform_listOpenings, ← hs, List.nil_append]
  unfold Rendering.write Writer.nestLists
  dsimp only
  rw [hstack, listRun_append own houter]

/-! ## Elements in their order -/

theorem blind_breakFor (e : Element Document) : Blind ok [] fun _ s => Rendering.breakFor e s := by
  unfold Rendering.breakFor
  split
  · exact blind_id
  · exact blind_startLine

theorem scripted_enter (e : Element Document) : Scripted ok [] fun _ s => Rendering.enter e s := by
  unfold Rendering.enter
  split
  · exact (blind_breakFor e).scripted
  · exact scripted_finishLists.comp (blind_breakFor e).scripted

theorem blind_leave (e : Element Document) : Blind ok [] fun _ s => Rendering.leave e s := by
  unfold Rendering.leave
  dsimp only
  split
  · exact blind_breakFor e
  · exact (blind_breakFor e).comp (blind_afterBlock _)

end

end Html

end WikiHtml
