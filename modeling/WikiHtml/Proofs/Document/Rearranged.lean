-- Documents in JSON that differ in the order of their keys and in keys that are not known where they
-- stand. A single step changes one object; it keeps what is read at every place around that object, and
-- whether the whole is sound.
import Mathlib.Logic.Relation
import WikiHtml.Proofs.Document.Keys
import WikiHtml.Tree.Decode

namespace WikiHtml.Document

open Json

/-! ## Edits -/

/-- A step from one value to another that stands at the same place, below so many arrays and objects: the
keys of an object change their order, or one is added that is not known there and has a value that
is sound; or there is such a step further down, in a field, in the slot of a field or in an item. -/
inductive Edit : Nat → Place → Json → Json → Prop
  | permute {level : Nat} {p : Place} {members members' : Members} (h : members.Perm members') :
      Edit level p (.object members) (.object members')
  | add {level : Nat} {p : Place} {before after : Members} {key : String} {value : Json}
      (unknown : key ∉ p.keys (before ++ after)) (sound : SoundBelow (level + 1) value) :
      Edit level p (.object (before ++ after)) (.object (before ++ (some key, value) :: after))
  | field {level : Nat} {p q : Place} {before after : Members} {key : String} {value value' : Json}
      (there : p.within key = some q) (h : Edit (level + 1) q value value') :
      Edit level p (.object (before ++ (some key, value) :: after))
        (.object (before ++ (some key, value') :: after))
  | slot {level : Nat} {p q : Place} {before after : List Json} {key : String} {value value' : Json}
      (known : p.names[before.length]? = some key) (there : p.within key = some q)
      (h : Edit (level + 1) q value value') :
      Edit level p (.array (before ++ value :: after)) (.array (before ++ value' :: after))
  | item {level : Nat} {p : Place} {before after : List Json} {value value' : Json}
      (h : Edit (level + 1) p value value') :
      Edit level (.all p) (.array (before ++ value :: after)) (.array (before ++ value' :: after))

theorem Edit.ne_null {level : Nat} {p : Place} {json json' : Json} (h : Edit level p json json') :
    json ≠ .null ∧ json' ≠ .null := by
  cases h <;> exact ⟨nofun, nofun⟩

theorem Edit.decode?_eq {level : Nat} {p : Place} {json json' : Json}
    (h : Edit level p json json') (bound : Nat) :
    p.decode? bound json = p.decode? bound json' := by
  induction h generalizing bound with
  | permute h =>
    exact decode?_object (fun _ => readAlike_of_same fun key _ => field?_perm h key) bound
  | @add _ p before after key value unknown _ =>
    have hne : ∀ name ∈ p.keys (before ++ after), name ≠ key := fun name hname heq =>
      unknown (heq ▸ hname)
    exact decode?_object (fun _ => readAlike_of_same fun name hname =>
      (field?_insert (hne name hname) before after value).symm) bound
  | @field _ p q before after key value value' there h ih =>
    exact decode?_object (readAlike_of_member there h.ne_null.1 h.ne_null.2 ih _ before after) bound
  | @slot _ p q before after key value value' known there h ih =>
    obtain ⟨front, back, hzip⟩ := @zip_names_of_slot _ _ after _ known
    refine decode?_array (fun hnil => ?_) (by simp) (fun bound => ?_) bound
    · rw [hnil] at known
      cases known
    · rw [hzip, hzip]
      exact readAlike_of_member there h.ne_null.1 h.ne_null.2 ih _ front back bound
  | @item _ p before after value value' h ih =>
    change (before ++ value :: after).mapM (p.decode? bound) =
      (before ++ value' :: after).mapM (p.decode? bound)
    rw [List.mapM_append, List.mapM_append, List.mapM_cons, List.mapM_cons, ih]

/-- A step keeps the nesting limit and the range of numbers. -/
theorem Edit.soundBelow_iff {level : Nat} {p : Place} {json json' : Json}
    (h : Edit level p json json') : SoundBelow level json ↔ SoundBelow level json' := by
  induction h with
  | permute h => simp only [soundBelow_object, h.mem_iff]
  | add unknown sound =>
    simp only [soundBelow_object, List.forall_mem_append, List.forall_mem_cons, sound,
      Option.isSome_some, true_and]
  | field there h ih =>
    simp only [soundBelow_object, List.forall_mem_append, List.forall_mem_cons, ih]
  | slot known there h ih =>
    simp only [soundBelow_array, List.forall_mem_append, List.forall_mem_cons, ih]
  | item h ih => simp only [soundBelow_array, List.forall_mem_append, List.forall_mem_cons, ih]

/-- Values that come from each other by such steps, from the top of a document. -/
def Rearranged : Json → Json → Prop :=
  Relation.EqvGen (Edit 0 .node)

theorem Rearranged.ofJson?_eq {json json' : Json} (h : Rearranged json json') :
    ofJson? json = ofJson? json' := by
  induction h with
  | rel json json' h =>
    have hsound : json.isSound = json'.isSound :=
      Bool.eq_iff_iff.mpr (isSound_iff.trans (h.soundBelow_iff.trans isSound_iff.symm))
    rw [ofJson?, ofJson?, hsound]
    exact congrArg (fun d => if json'.isSound then d else none) (h.decode?_eq (nestingLimit + 1))
  | refl json => rfl
  | symm json json' _ ih => exact ih.symm
  | trans json json' json'' _ _ ih ih' => exact ih.trans ih'

/-! ## The order of options -/

/-- Options as they are written. -/
def written (options : Options) : Json :=
  .object (options.map fun (key, value) => (some key, .string (some value)))

/-- Puts a member that is a text to the options before it. -/
def putMember (options : Options) (member : Option String × Json) : Option Options := do
  return putText options (← member.1) (← member.2.text?)

theorem putText_of_new {pairs : Options} {key : String} (h : key ∉ pairs.map Prod.fst)
    (value : String) : putText pairs key value = pairs ++ [(key, value)] := by
  have hnone : pairs.any (·.1 == key) = false :=
    List.any_eq_false.mpr fun p hp heq => h (by
      rw [← beq_iff_eq.mp heq]
      exact List.mem_map_of_mem hp)
  rw [putText, if_neg (by simp [hnone])]

/-- Options with different keys are read in the order in which they are written. -/
theorem texts?_written {options : Options} (h : (options.map Prod.fst).Nodup) :
    texts? (written options) = some options := by
  have hread : ∀ before after : Options, ((before ++ after).map Prod.fst).Nodup →
      (after.map fun p => (some p.1, Json.string (some p.2))).foldlM putMember before =
        some (before ++ after) := by
    intro before after h
    induction after generalizing before with
    | nil => simp
    | cons p rest ih =>
      have hnew : p.1 ∉ before.map Prod.fst := fun hm => by
        rw [List.map_append, List.nodup_append] at h
        exact h.2.2 _ hm p.1 (by simp) rfl
      have hput : putText before p.1 p.2 = before ++ [p] := putText_of_new hnew p.2
      rw [List.append_cons] at h ⊢
      rw [List.map_cons, List.foldlM_cons, ← ih (before ++ [p]) h, ← hput]
      rfl
  exact hread [] options h

/-- The options of an element that has some. -/
def options? (d : Document) : Option Options :=
  match d.element with
  | .wrap (.xmlTag _ _ options) _ => some options
  | .leaf (.image _ options) => some options
  | _ => none

section

variable {members : Members} {kind : String} {options : Options}

theorem options_of_wrapper? {space : Option String} {name : String}
    (h : wrapper? members kind = some (.xmlTag space name options)) :
    defaulted? members "options" texts? [] = some options := by
  unfold wrapper? at h
  split at h <;> simp_all [Option.bind_eq_some_iff]

theorem options_of_leaf? {url : String} (h : leaf? members kind = some (.image url options)) :
    defaulted? members "options" texts? [] = some options := by
  unfold leaf? at h
  split at h <;> simp_all [Option.bind_eq_some_iff]

theorem options_of_node? {bound : Nat} {d : Document}
    (h : node? bound (.object members) = some d) (ho : d.options? = some options) :
    defaulted? members "options" texts? [] = some options := by
  rcases bound with _ | bound
  · cases h
  rw [node?] at h
  simp only [Option.bind_eq_bind, Option.bind_eq_some_iff, Option.pure_def, Option.some.injEq] at h
  obtain ⟨kind, -, span, -, e, he, rfl⟩ := h
  unfold element? at he
  split_ifs at he <;>
    simp only [Option.bind_eq_bind, Option.bind_eq_some_iff, Option.pure_def, Option.some.injEq] at he
  · obtain ⟨items, -, rfl⟩ := he
    cases ho
  · obtain ⟨params, -, rows, -, rfl⟩ := he
    cases ho
  · obtain ⟨w, hw, child, -, rfl⟩ := he
    cases w <;> cases ho
    exact options_of_wrapper? hw
  · obtain ⟨l, hl, rfl⟩ := he
    cases l <;> cases ho
    exact options_of_leaf? hl

end

/-! ## What does not count -/

/-- Of a text that describes a tree neither the order of the keys counts nor what stands below unknown
keys: the tree is the same, and so is the failure if there is none. Only options keep their order. -/
theorem key_order_and_unknown_keys_do_not_count :
    (∀ text text' json json', Json.parse? text = some json → Json.parse? text' = some json' →
        Rearranged json json' → Tree.parse text = Tree.parse text') ∧
      ∀ bound members d options given, node? bound (.object members) = some d →
        d.options? = some options → field? members "options" = some (some (written given)) →
        (given.map Prod.fst).Nodup → options = given := by
  constructor
  · intro text text' json json' hjson hjson' h
    rw [Tree.parse, Tree.parse, parse?, parse?, hjson, hjson']
    simp only [Option.bind_eq_bind, Option.bind_some, h.ofJson?_eq]
  · intro bound members d options given hd ho hgiven hkeys
    have hread := options_of_node? hd ho
    rw [defaulted?, hgiven] at hread
    exact Option.some.inj (hread.symm.trans (texts?_written hkeys))

/-- An image in a list. -/
def imageInList : String :=
  "\x7b\"type\":\"list\",\"items\":[\x7b\"type\":\"image\",\"url\":\"u\"," ++
    "\"options\":\x7b\"b\":\"1\",\"a\":\"2\"\x7d\x7d]\x7d"

/-- The same with its keys in another order and an element of no kind below an unknown key. -/
def imageInMixedList : String :=
  "\x7b\"items\":[\x7b\"child\":\x7b\"type\":null\x7d,\"options\":\x7b\"b\":\"1\",\"a\":\"2\"\x7d," ++
    "\"url\":\"u\",\"type\":\"image\"\x7d],\"type\":\"list\"\x7d"

/-- The members of the image. -/
def imageMembers : Members :=
  [(some "type", .string (some "image")), (some "url", .string (some "u")),
    (some "options", written [("b", "1"), ("a", "2")])]

/-- The list around an image. -/
def listValue (image : Members) : Json :=
  .object [(some "type", .string (some "list")), (some "items", .array [.object image])]

theorem edit_listValue {image image' : Members} (h : Edit 2 .node (.object image) (.object image')) :
    Edit 0 .node (listValue image) (listValue image') := by
  have hitems : Edit 1 (.all .node) (.array ([] ++ [.object image])) (.array ([] ++ [.object image'])) :=
    .item h
  have hlist : ∀ items, listValue items = .object ([(some "type", .string (some "list"))] ++
      [(some "items", .array ([] ++ [.object items]))]) := fun _ => rfl
  rw [hlist, hlist]
  exact .field rfl hitems

/-- The members of the image in the other order, and one that an image does not have. -/
def mixedMembers : Members :=
  (some "child", .object [(some "type", .null)]) :: imageMembers.reverse

/-- The list around an image with its keys in the other order. -/
def mixedListValue (image : Members) : Json :=
  .object [(some "items", .array [.object image]), (some "type", .string (some "list"))]

theorem rearranged_image : Rearranged (listValue imageMembers) (mixedListValue mixedMembers) := by
  have hturned : Edit 2 .node (.object imageMembers) (.object imageMembers.reverse) :=
    .permute (List.reverse_perm imageMembers).symm
  have hkeys : "child" ∉ Place.node.keys ([] ++ imageMembers.reverse) := by
    decide
  have hadded : Edit 2 .node (.object ([] ++ imageMembers.reverse)) (.object ([] ++ mixedMembers)) :=
    .add hkeys ⟨by rfl, by decide⟩
  have hlist : Edit 0 .node (listValue mixedMembers) (mixedListValue mixedMembers) :=
    .permute (.swap _ _ [])
  exact ((Relation.EqvGen.rel _ _ (edit_listValue hturned)).trans _ _ _
    (.rel _ _ (edit_listValue hadded))).trans _ _ _ (.rel _ _ hlist)

theorem mixed_image_is_read_alike :
    ∃ json json' d, Json.parse? imageInList = some json ∧ Json.parse? imageInMixedList = some json' ∧
      Rearranged json json' ∧ Tree.parse imageInList = Tree.parse imageInMixedList ∧
      node? 1 (.object imageMembers) = some d ∧ d.options? = some [("b", "1"), ("a", "2")] ∧
      ∀ options, d.options? = some options → options = [("b", "1"), ("a", "2")] := by
  have hplain : Json.parse? imageInList = some (listValue imageMembers) := by
    cbv
  have hmixed : Json.parse? imageInMixedList = some (mixedListValue mixedMembers) := by
    cbv
  have hnode : node? 1 (.object imageMembers) =
      some (.node (.leaf (.image "u" [("b", "1"), ("a", "2")])) none) := by
    rfl
  have hfield : field? imageMembers "options" = some (some (written [("b", "1"), ("a", "2")])) := by
    rfl
  exact ⟨_, _, _, hplain, hmixed, rearranged_image,
    key_order_and_unknown_keys_do_not_count.1 _ _ _ _ hplain hmixed rearranged_image, hnode, rfl,
    fun options ho => key_order_and_unknown_keys_do_not_count.2 1 imageMembers _ options _ hnode ho
      hfield (by decide)⟩

end WikiHtml.Document
