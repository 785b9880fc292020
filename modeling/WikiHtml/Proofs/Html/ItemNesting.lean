-- The lists around items. Before an item is written, the lists on top of the open tags are brought to
-- the level and the kind of the item: those that fit stay open, the others are closed, and what is
-- missing is opened. So every item stands in a list of its own kind that is as deep as its level.
import WikiHtml.Proofs.Html.Enclosed

namespace WikiHtml.Html

/-! ## Lists on top of the open tags -/

/-- The open tags below the lists on top. -/
def belowLists (tags : List String) : List String :=
  tags.drop (listRun tags).length

/-- The lists that stay open for an item, the outermost first: those up to its level, but for one at
its level that is of the other kind. -/
def keptLists (lists : List ListKind) (level : Nat) (kind : ListKind) : List ListKind :=
  if (lists[level - 1]?).all (· = kind) then lists.take level else lists.take (level - 1)

/-- A writer has closed the lists on top that an item does not fit in, and nothing else, and then has
opened lists of the kind of the item up to its level. -/
structure Fitted (w : Writer) (level : Nat) (kind : ListKind) (kept : List ListKind)
    (w' : Writer) : Prop where
  acts : w' = w.perform (listClosings ((listRun w.stack).length - kept.length) ++
    listOpenings kind (level - kept.length))
  lists : (listRun w'.stack).reverse = kept ++ List.replicate (level - kept.length) kind
  deep : (listRun w'.stack).length = level
  innermost : 1 ≤ level → (listRun w'.stack).head? = some kind
  stack : w'.stack = (listRun w'.stack).map ListKind.tag ++ belowLists w.stack

section

variable {name : String} {kind : ListKind} {level : Nat} {lists run : List ListKind}
  {below : List String}

theorem eq_tag_of_ofTag? (h : ListKind.ofTag? name = some kind) : name = kind.tag := by
  unfold ListKind.ofTag? at h
  split at h
  · cases h
    assumption
  · split at h <;> cases h
    assumption

/-- The open tags are lists, and those below. -/
theorem tags_eq (tags : List String) :
    tags = (listRun tags).map ListKind.tag ++ belowLists tags := by
  induction tags with
  | nil => rfl
  | cons name outer ih =>
    unfold belowLists at ih ⊢
    rcases hname : ListKind.ofTag? name with _ | kind
    · rw [listRun_cons hname]
      rfl
    · have hrun : listRun (name :: outer) = kind :: listRun outer := by rw [listRun, hname]
      rw [hrun, List.map_cons, List.length_cons, List.drop_succ_cons, List.cons_append, ← ih,
        eq_tag_of_ofTag? hname]

theorem listRun_tags (h : listRun below = []) (run : List ListKind) :
    listRun (run.map ListKind.tag ++ below) = run := by
  rw [listRun_append _ h, listRun_map_tag]

theorem belowLists_tags (h : listRun below = []) (run : List ListKind) :
    belowLists (run.map ListKind.tag ++ below) = below := by
  rw [belowLists, listRun_tags h, List.drop_left' (List.length_map _)]

/-! ## Lists that are kept -/

theorem length_keptLists_le (lists : List ListKind) (level : Nat) (kind : ListKind) :
    (keptLists lists level kind).length ≤ level := by
  unfold keptLists
  split
  · exact List.length_take_le _ _
  · exact (List.length_take_le _ _).trans (Nat.sub_le _ _)

theorem keptLists_outermost (lists : List ListKind) (level : Nat) (kind : ListKind) :
    keptLists lists level kind <+: lists := by
  unfold keptLists
  split <;> exact List.take_prefix _ _

/-- Of a run that does not reach the level all lists are kept. -/
theorem keptLists_of_lt (h : lists.length < level) (kind : ListKind) :
    keptLists lists level kind = lists := by
  have hbeyond : lists[level - 1]? = none := List.getElem?_eq_none (by omega)
  unfold keptLists
  rw [hbeyond, Option.all_none, if_pos rfl, List.take_of_length_le h.le]

theorem length_keptLists_of_le {innermost : ListKind} (h : lists[level]? = some innermost)
    (kind : ListKind) : (keptLists lists (level + 1) kind).length =
      if innermost = kind then level + 1 else level := by
  have hlt : level < lists.length := (List.getElem?_eq_some_iff.mp h).choose
  unfold keptLists
  rw [Nat.add_sub_cancel, h, Option.all_some]
  by_cases hkind : innermost = kind
  · simp [hkind, Nat.succ_le_of_lt hlt]
  · simp [hkind, hlt.le]

/-- All lists are surplus but those that are kept. -/
theorem surplus_eq (run : List ListKind) (level : Nat) (kind : ListKind) :
    Writer.surplus run level kind = run.length - (keptLists run.reverse level kind).length := by
  rcases Nat.lt_or_ge run.length level with hlevel | hlevel
  · rw [keptLists_of_lt (by rwa [List.length_reverse]), List.length_reverse]
    simp only [Writer.surplus, decide_eq_false (Nat.not_le.mpr hlevel), Bool.false_and,
      Bool.false_eq_true, if_false]
    split <;> omega
  · rcases level with _ | n
    · simp [Writer.surplus, keptLists]
    · -- The list at the level is the innermost one when the deeper ones are closed.
      obtain ⟨innermost, hsome⟩ : ∃ innermost, run.reverse[n]? = some innermost :=
        ⟨_, List.getElem?_eq_getElem (by rw [List.length_reverse]; omega)⟩
      have hinnermost : run[run.length - (n + 1)]? = some innermost := by
        rw [← hsome, List.getElem?_reverse (by omega)]
        congr 1
        omega
      rw [length_keptLists_of_le hsome]
      simp only [Writer.surplus, hinnermost, decide_eq_true hlevel, Bool.true_and]
      by_cases hkind : innermost = kind
      · simp [hkind]
      · simp [hkind]
        omega

/-- If as many lists are kept as the level says, the innermost one is of the kind. -/
theorem innermost_kept (h : (keptLists lists (level + 1) kind).length = level + 1) :
    (keptLists lists (level + 1) kind)[level]? = some kind := by
  have hlt : level < lists.length := by
    have hle := (keptLists_outermost lists (level + 1) kind).length_le
    omega
  have hat : lists[level]? = some lists[level] := List.getElem?_eq_getElem hlt
  have hkind : lists[level] = kind := by
    rw [length_keptLists_of_le hat] at h
    by_contra hne
    rw [if_neg hne] at h
    omega
  have hlists := keptLists_outermost lists (level + 1) kind
  have hkept := List.prefix_iff_getElem?.mp hlists level (by omega)
  rw [List.getElem?_eq_getElem (by omega), ← hkept, hat, hkind]

/-- The innermost list after lists have been kept and opened is of the kind. -/
theorem getLast?_kept (h : 1 ≤ level) (lists : List ListKind) (kind : ListKind) :
    (keptLists lists level kind ++
      List.replicate (level - (keptLists lists level kind).length) kind).getLast? = some kind := by
  rcases Nat.eq_zero_or_pos (level - (keptLists lists level kind).length) with hfull | hopened
  · obtain ⟨n, rfl⟩ := Nat.exists_eq_add_of_le' h
    have hlength : (keptLists lists (n + 1) kind).length = n + 1 := by
      have hle := length_keptLists_le lists (n + 1) kind
      omega
    rw [hfull, List.replicate_zero, List.append_nil, List.getLast?_eq_getElem?, hlength,
      Nat.add_sub_cancel]
    exact innermost_kept hlength
  · obtain ⟨n, hn⟩ := Nat.exists_eq_add_of_le' hopened
    rw [hn, List.replicate_succ', ← List.append_assoc, List.getLast?_concat]

/-! ## Fitting the lists to an item -/

/-- The tags that are left when no more lists have been closed than are on top. -/
theorem drop_lists (tags : List String) {n : Nat} (h : n ≤ (listRun tags).length) :
    tags.drop n = ((listRun tags).drop n).map ListKind.tag ++ belowLists tags := by
  conv_lhs => rw [tags_eq tags]
  rw [List.drop_append_of_le_length (by rwa [List.length_map]), List.map_drop]

/-- The lists that are kept are the outermost ones. -/
theorem drop_surplus (run : List ListKind) (level : Nat) (kind : ListKind) :
    run.drop (run.length - (keptLists run.reverse level kind).length) =
      (keptLists run.reverse level kind).reverse := by
  have hkept : keptLists run.reverse level kind =
      run.reverse.take (keptLists run.reverse level kind).length :=
    List.prefix_iff_eq_take.mp (keptLists_outermost run.reverse level kind)
  conv_rhs => rw [hkept, List.take_reverse, List.reverse_reverse]

/-- As many lists are closed as are not kept, and then as many are opened as are missing. -/
theorem nestLists_eq (w : Writer) (level : Nat) (kind : ListKind) :
    let kept := keptLists (listRun w.stack).reverse level kind
    w.nestLists level kind =
      (w.closeLists ((listRun w.stack).length - kept.length)).openLists kind
        (level - kept.length) := by
  intro kept
  have hle : kept.length ≤ (listRun w.stack).length :=
    (keptLists_outermost _ level kind).length_le.trans_eq List.length_reverse
  unfold Writer.nestLists
  dsimp only
  rw [surplus_eq, Nat.sub_sub_self hle]

theorem stack_nestLists (w : Writer) (level : Nat) (kind : ListKind) :
    let kept := keptLists (listRun w.stack).reverse level kind
    (w.nestLists level kind).stack =
      (kept ++ List.replicate (level - kept.length) kind).reverse.map ListKind.tag ++
        belowLists w.stack := by
  intro kept
  rw [nestLists_eq, Writer.stack_openLists, Writer.stack_closeLists,
    drop_lists w.stack (Nat.sub_le _ _), drop_surplus, List.reverse_append, List.reverse_replicate,
    List.map_append, List.map_replicate, List.append_assoc]

/-- The lists on top of the open tags are fitted to an item. -/
theorem fitted_nestLists (w : Writer) (level : Nat) (kind : ListKind) :
    Fitted w level kind (keptLists (listRun w.stack).reverse level kind)
      (w.nestLists level kind) := by
  have hstack := stack_nestLists w level kind
  have hbelow : listRun (belowLists w.stack) = [] := listRun_drop w.stack
  have hle := length_keptLists_le (listRun w.stack).reverse level kind
  have hrun := (congrArg listRun hstack).trans (listRun_tags hbelow _)
  refine ⟨?_, ?_, ?_, fun h => ?_, ?_⟩
  · rw [Writer.perform_append, Writer.perform_listClosings, Writer.perform_listOpenings]
    exact nestLists_eq w level kind
  · rw [hrun, List.reverse_reverse]
  · rw [hrun, List.length_reverse, List.length_append, List.length_replicate]
    omega
  · rw [hrun, List.head?_reverse]
    exact getLast?_kept h _ kind
  · rw [hrun]
    exact hstack

end

/-! ## Items in their order -/

section

variable {v : View} {place : Place} {span : Option Span} {d : Document} {items : List Document}
  {s : Rendering}

/-- What is written in the tag of an item. -/
def itemContent (v : View) (place : Place) (level : Nat) (isOrdered : Bool)
    (child : Option Document) (s : Rendering) : Rendering :=
  drawChild v (place.within (.wrap (.listItem level isOrdered) child)) s child

/-- An item is the same wherever in its list it stands. -/
theorem draw_member_item (h : Rendering.isListItem d.element = true) (rest : List Document) :
    draw v (place.member rest span) s d = draw v place s d := by
  obtain ⟨e, itemSpan⟩ := d
  obtain ⟨level, isOrdered, child, rfl⟩ := item_of_isListItem h
  rw [draw_item, draw_item]
  rfl

theorem drawMembers_items (h : ∀ d ∈ items, Rendering.isListItem d.element = true)
    (rest : List Document) : drawMembers v place span s (items ++ rest) =
      drawMembers v place span (items.foldl (draw v place) s) rest := by
  induction items generalizing s with
  | nil => rfl
  | cons d items ih =>
    rw [List.forall_mem_cons] at h
    rw [List.cons_append, drawMembers, draw_member_item h.1, List.foldl_cons]
    exact ih h.2

theorem keepsOpen_itemContent (v : View) (place : Place) (level : Nat) (isOrdered : Bool)
    (child : Option Document) : KeepsOpen [] (itemContent v place level isOrdered child) := by
  have hheld : ∀ d ∈ child.toList, Drawn (fun _ => True) v d := fun d _ => drawn _ v d
  exact (scripted_child hheld (place.within (.wrap (.listItem level isOrdered) child))
    fun d _ => granted_all _ d).keepsOpen v.settings

/-- An item leaves open what is open when its list is. -/
theorem stack_itemBody (v : View) (place : Place) (level : Nat) (isOrdered : Bool)
    (child : Option Document) (s : Rendering) :
    (itemBody v place level isOrdered child s).writer.stack = s.writer.stack := by
  obtain ⟨bare, hbody⟩ := blind_itemBody v place level isOrdered child
  obtain ⟨script, hown, -, hplay⟩ := hbody s.afterBlock
  have hdrawn := hplay v.settings s rfl
  change itemBody v place level isOrdered child s = _ at hdrawn
  rw [hdrawn]
  exact script.stack_play hown rfl v.settings

/-- Below the lists on top an item leaves the open tags as they are. -/
theorem belowLists_draw_item (h : Rendering.isListItem d.element = true) :
    belowLists (draw v place s d).writer.stack = belowLists s.writer.stack := by
  obtain ⟨e, itemSpan⟩ := d
  obtain ⟨level, isOrdered, child, rfl⟩ := item_of_isListItem h
  have hbelow : listRun (belowLists s.startLine.writer.stack) = [] := listRun_drop _
  have hstack := stack_nestLists s.startLine.writer level (.ofItem isOrdered)
  rw [draw_item, stack_itemBody]
  exact (congrArg belowLists hstack).trans (belowLists_tags hbelow _)

theorem belowLists_items (h : ∀ d ∈ items, Rendering.isListItem d.element = true) :
    belowLists (items.foldl (draw v place) s).writer.stack = belowLists s.writer.stack := by
  induction items generalizing s with
  | nil => rfl
  | cons d items ih =>
    rw [List.forall_mem_cons] at h
    exact (ih h.2).trans (belowLists_draw_item h.1)

theorem stack_enter {e : Element Document} (he : Rendering.isListItem e = false) (s : Rendering) :
    (Rendering.enter e s).writer.stack = belowLists s.writer.stack := by
  have hfinished : s.writer.finishLists.stack = belowLists s.writer.stack := by
    unfold Writer.finishLists
    exact Writer.stack_closeLists _ _
  unfold Rendering.enter Rendering.breakFor
  rw [he]
  split <;> exact hfinished

/-- Before an item the lists on top of the open tags are fitted to its level and kind: the outer ones
stay open, the others are closed, and those that are missing are opened; all tags below are left as
they are. So after any items, an item is written right in a list of its kind that is as deep as its
level, and leaves it open; and what is no item finds the lists closed that were open for the items. -/
theorem items_stand_in_lists_as_deep_as_their_levels (v : View) (place : Place)
    (span : Option Span) :
    (∀ w level kind, Fitted w level kind (keptLists (listRun w.stack).reverse level kind)
      (w.nestLists level kind)) ∧
    ∀ (s : Rendering) (items : List Document),
      (∀ d ∈ items, Rendering.isListItem d.element = true) →
      let t := items.foldl (draw v place) s
      (∀ rest, drawMembers v place span s (items ++ rest) = drawMembers v place span t rest) ∧
      (∀ level isOrdered child itemSpan,
        let item : Element Document := .wrap (.listItem level isOrdered) child
        let content := itemContent v place level isOrdered child
        ∃ u : Rendering,
          Fitted t.startLine.writer level (.ofItem isOrdered)
            (keptLists (listRun t.writer.stack).reverse level (.ofItem isOrdered)) u.writer ∧
          u.writer.stack =
            (listRun u.writer.stack).map ListKind.tag ++ belowLists s.writer.stack ∧
          draw v place t (.node item itemSpan) = Rendering.leave item (u.tag "li" "" content) ∧
          KeepsOpen [] content ∧
          (draw v place t (.node item itemSpan)).writer.stack = u.writer.stack) ∧
      ∀ d place', Rendering.isListItem d.element = false →
        (Rendering.enter d.element t).writer.stack = belowLists s.writer.stack ∧
        draw v place' t d = draw v place' (t.write Writer.finishLists) d := by
  refine ⟨fitted_nestLists, ?_⟩
  intro s items hitems t
  have hbelow : belowLists t.writer.stack = belowLists s.writer.stack := belowLists_items hitems
  refine ⟨drawMembers_items hitems, fun level isOrdered child itemSpan => ?_, fun d place' hd => ?_⟩
  · have hfitted := fitted_nestLists t.startLine.writer level (.ofItem isOrdered)
    refine ⟨t.startLine.write (·.nestLists level (.ofItem isOrdered)), hfitted,
      hbelow ▸ hfitted.stack, draw_item v place t level isOrdered child itemSpan,
      keepsOpen_itemContent v place level isOrdered child, ?_⟩
    rw [draw_item, stack_itemBody]
  · obtain ⟨e, span'⟩ := d
    refine ⟨(stack_enter hd t).trans hbelow, draw_of_enter v place' span' ?_⟩
    have htwice : (t.writer.finishLists).finishLists = t.writer.finishLists :=
      Writer.finishLists_of_listRun t.writer.listRun_finishLists
    unfold Rendering.enter
    rw [show Rendering.isListItem e = false from hd]
    exact congrArg (Rendering.breakFor e ⟨·, t.afterBlock, t.skipped⟩) htwice.symm

end

/-- An item with bullets, and one with numbers that is two levels deeper. -/
def twoItems : List Document :=
  [.node (.wrap (.listItem 1 false) none) none, .node (.wrap (.listItem 3 true) none) none]

/-- After the two items, an item with bullets at the second level stands in a list of its own, and a
word in none. -/
theorem the_third_item_has_a_list_of_its_own :
    let v : View := ⟨.empty, .standard, true⟩
    let place : Place := ⟨none, none, none⟩
    let word : Document := .node (.leaf (.text "c")) none
    let t := twoItems.foldl (draw v place) .empty
    (∀ d ∈ twoItems, Rendering.isListItem d.element = true) ∧
    t.writer.stack = ["ol", "ol", "ul"] ∧
    (∃ u : Rendering, u.writer.stack = ["ul", "ul"] ∧
      draw v place t (.node (.wrap (.listItem 2 false) none) none) =
        Rendering.leave (.wrap (.listItem 2 false) none : Element Document)
          (u.tag "li" "" (itemContent v place 2 false none))) ∧
    Rendering.isListItem word.element = false ∧
    (Rendering.enter word.element t).writer.stack = [] := by
  intro v place word t
  have hitems : ∀ d ∈ twoItems, Rendering.isListItem d.element = true := by
    simp [twoItems, Document.element, Rendering.isListItem]
  obtain ⟨-, hitem, hother⟩ :=
    (items_stand_in_lists_as_deep_as_their_levels v place none).2 .empty twoItems hitems
  refine ⟨hitems, by decide, ?_, rfl, (hother word place rfl).1⟩
  obtain ⟨u, hfitted, hstack, hdrawn, -⟩ := hitem 2 false none none
  have hkept : keptLists (listRun t.writer.stack).reverse 2 (.ofItem false) = [.unordered] := by
    decide
  have hlists := hfitted.lists
  rw [hkept] at hlists
  have hrun : listRun u.writer.stack = [.unordered, .unordered] :=
    List.reverse_injective hlists
  rw [hrun] at hstack
  exact ⟨u, hstack, hdrawn⟩

end WikiHtml.Html
