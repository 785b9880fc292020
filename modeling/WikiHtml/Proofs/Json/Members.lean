-- The members of objects: what a field is when members change their order, when one is added, and when
-- the value of one changes; and which values are sound where they stand.
import Mathlib.Data.List.Perm.Basic
import WikiHtml.Json.Fields

namespace WikiHtml.Json

/-! ## Fields -/

/-- The value of the only member, if there is one. More than one is a failure. -/
def single? : Members → Option (Option Json)
  | [] => some none
  | [(_, value)] => some (some value)
  | _ => none

theorem field?_eq (members : Members) (name : String) :
    field? members name = single? (members.filter (·.1 == some name)) := by
  unfold field? single?
  rfl

theorem single?_perm {members members' : Members} (h : members.Perm members') :
    single? members = single? members' := by
  rcases members with _ | ⟨first, _ | ⟨second, rest⟩⟩
  · rw [List.nil_perm.mp h]
  · rw [List.singleton_perm.mp h]
  · have hlength := h.length_eq
    rcases members' with _ | ⟨_, _ | ⟨_, _⟩⟩
    · simp at hlength
    · simp at hlength
    · rfl

section

variable {members members' before after : Members} {key name : String} {value value' : Json}

theorem field?_perm (h : members.Perm members') (name : String) :
    field? members name = field? members' name := by
  rw [field?_eq, field?_eq, single?_perm (h.filter _)]

/-- A member under another key does not count. -/
theorem field?_insert (h : name ≠ key) (before after : Members) (value : Json) :
    field? (before ++ (some key, value) :: after) name = field? (before ++ after) name := by
  have hkey : (some key == some name) = false := by simpa using Ne.symm h
  rw [field?_eq, field?_eq, List.filter_append, List.filter_append,
    List.filter_cons_of_neg (by simp [hkey])]

end

/-- Two fields are the same, or hold values other than null that are read alike. -/
def Agree {α : Type} (decode : Decoder α) (field field' : Option (Option Json)) : Prop :=
  field = field' ∨ ∃ value value', field = some (some value) ∧ field' = some (some value') ∧
    value ≠ .null ∧ value' ≠ .null ∧ decode value = decode value'

section

variable {α : Type} {decode : Decoder α} {members members' before after : Members} {name : String}
  {value value' : Json}

theorem nullable?_of_ne (h : value ≠ .null) :
    nullable? decode value = (decode value).map some := by
  cases value <;> first | rfl | exact absurd rfl h

/-- A member whose value changes to one that is read alike. -/
theorem agree_of_member (before after : Members) (key : String) (hvalue : value ≠ .null)
    (hvalue' : value' ≠ .null) (h : decode value = decode value') :
    Agree decode (field? (before ++ (some key, value) :: after) key)
      (field? (before ++ (some key, value') :: after) key) := by
  have hfield : ∀ v, field? (before ++ (some key, v) :: after) key =
      single? ((some key, v) :: (before ++ after).filter (·.1 == some key)) := fun v => by
    rw [field?_eq, single?_perm (List.perm_middle.filter _), List.filter_cons_of_pos (by simp)]
  rw [hfield, hfield]
  generalize (before ++ after).filter (·.1 == some key) = more
  rcases more with _ | ⟨other, rest⟩
  · exact Or.inr ⟨value, value', rfl, rfl, hvalue, hvalue', h⟩
  · exact Or.inl rfl

theorem required?_congr (h : field? members name = field? members' name) (decode : Decoder α) :
    required? members name decode = required? members' name decode := by
  rw [required?, required?, h]

theorem optional?_agree (h : Agree decode (field? members name) (field? members' name)) :
    optional? members name decode = optional? members' name decode := by
  rw [optional?, optional?]
  rcases h with h | ⟨value, value', hfield, hfield', hvalue, hvalue', h⟩
  · rw [h]
  · rw [hfield, hfield']
    exact (nullable?_of_ne hvalue).trans ((congrArg _ h).trans (nullable?_of_ne hvalue').symm)

theorem defaulted?_agree (h : Agree decode (field? members name) (field? members' name))
    (default : α) :
    defaulted? members name decode default = defaulted? members' name decode default := by
  rw [defaulted?, defaulted?]
  rcases h with h | ⟨value, value', hfield, hfield', _, _, h⟩
  · rw [h]
  · rw [hfield, hfield']
    exact h

end

/-- In a record that is written as an array, a value is the member under the key of its slot. -/
theorem zip_names_of_slot {names : List String} {before after : List Json} {key : String}
    (h : names[before.length]? = some key) : ∃ front back : Members, ∀ value,
      (names.map some).zip (before ++ value :: after) = front ++ (some key, value) :: back := by
  obtain ⟨hlt, hkey⟩ := List.getElem?_eq_some_iff.mp h
  have hnames : names.map some = (names.take before.length).map some ++
      some key :: (names.drop (before.length + 1)).map some := by
    rw [← hkey, ← List.map_cons, ← List.map_append, List.getElem_cons_drop, List.take_append_drop]
  refine ⟨((names.take before.length).map some).zip before,
    ((names.drop (before.length + 1)).map some).zip after, fun value => ?_⟩
  rw [hnames, List.zip_append (by simp; omega), List.zip_cons_cons]

/-! ## Soundness in place -/

/-- A value may stand below so many arrays and objects: it is exact, and not nested too deep. -/
def SoundBelow (level : Nat) (json : Json) : Prop :=
  json.isExact = true ∧ level + json.depth ≤ nestingLimit

theorem isSound_iff {json : Json} : json.isSound = true ↔ SoundBelow 0 json := by
  simp [isSound, SoundBelow, and_comm]

theorem depthOfItems_le {level : Nat} {items : List Json} :
    level + (depthOfItems items + 1) ≤ nestingLimit ↔
      level < nestingLimit ∧ ∀ item ∈ items, level + 1 + item.depth ≤ nestingLimit := by
  induction items with
  | nil => exact ⟨fun h => ⟨h, nofun⟩, fun h => h.1⟩
  | cons item rest ih =>
    have hmax : level + (max item.depth (depthOfItems rest) + 1) ≤ nestingLimit ↔
        level + 1 + item.depth ≤ nestingLimit ∧ level + (depthOfItems rest + 1) ≤ nestingLimit := by
      omega
    rw [depthOfItems, hmax, ih, List.forall_mem_cons, and_left_comm]

theorem depthOfMembers_le {level : Nat} {members : Members} :
    level + (depthOfMembers members + 1) ≤ nestingLimit ↔
      level < nestingLimit ∧ ∀ m ∈ members, level + 1 + m.2.depth ≤ nestingLimit := by
  induction members with
  | nil => exact ⟨fun h => ⟨h, nofun⟩, fun h => h.1⟩
  | cons m rest ih =>
    have hmax : level + (max m.2.depth (depthOfMembers rest) + 1) ≤ nestingLimit ↔
        level + 1 + m.2.depth ≤ nestingLimit ∧
          level + (depthOfMembers rest + 1) ≤ nestingLimit := by
      omega
    rw [depthOfMembers, hmax, ih, List.forall_mem_cons, and_left_comm]

theorem itemsAreExact_iff {items : List Json} :
    itemsAreExact items = true ↔ ∀ item ∈ items, item.isExact = true := by
  induction items with
  | nil => simp [itemsAreExact]
  | cons item rest ih => rw [itemsAreExact, Bool.and_eq_true, ih, List.forall_mem_cons]

theorem membersAreExact_iff {members : Members} :
    membersAreExact members = true ↔
      ∀ m ∈ members, m.1.isSome = true ∧ m.2.isExact = true := by
  induction members with
  | nil => simp [membersAreExact]
  | cons m rest ih =>
    rw [membersAreExact, Bool.and_eq_true, Bool.and_eq_true, ih, List.forall_mem_cons]

theorem soundBelow_array {level : Nat} {items : List Json} :
    SoundBelow level (.array items) ↔
      level < nestingLimit ∧ ∀ item ∈ items, SoundBelow (level + 1) item := by
  simp only [SoundBelow, isExact, depth, itemsAreExact_iff, depthOfItems_le, forall_and]
  exact and_left_comm

theorem soundBelow_object {level : Nat} {members : Members} :
    SoundBelow level (.object members) ↔ level < nestingLimit ∧
      ∀ m ∈ members, m.1.isSome = true ∧ SoundBelow (level + 1) m.2 := by
  simp only [SoundBelow, isExact, depth, membersAreExact_iff, depthOfMembers_le, forall_and,
    and_assoc]
  tauto

end WikiHtml.Json
