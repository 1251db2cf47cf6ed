import Mathlib.Data.List.Perm.Basic
import Screening.Json.Read
import Screening.Proofs.Document.Record

/-!
# What drafts mean

The value that a draft without repeated keys means, told part by part: scalars mean themselves,
arrays mean their items in order, and objects mean their members in any order. The value of a draft
is one that it means, a value is what its own draft means, and to reorder the members of objects
changes nothing.
-/

namespace Screening.Json

/-! ## Induction -/

/-- Induction on drafts. An array may assume the claim of every item, and an object that of every
member's value. -/
@[elab_as_elim, induction_eliminator]
theorem Draft.induct {P : Draft → Prop} (broken : P .broken) (null : P .null)
    (bool : ∀ value, P (.bool value)) (integer : ∀ value, P (.integer value))
    (float : ∀ value, P (.float value)) (string : ∀ value, P (.string value))
    (array : ∀ items closed, (∀ item ∈ items, P item) → P (.array items closed))
    (object : ∀ members closed, (∀ member ∈ members, P member.2) → P (.object members closed))
    (draft : Draft) : P draft :=
  Draft.rec (motive_1 := P) (motive_2 := fun items => ∀ item ∈ items, P item)
    (motive_3 := fun members => ∀ member ∈ members, P member.2)
    (motive_4 := fun member => P member.2) broken null bool integer float string array object
    (fun _ h => absurd h List.not_mem_nil)
    (fun _ _ ih ihs => List.forall_mem_cons.2 ⟨ih, ihs⟩)
    (fun _ h => absurd h List.not_mem_nil)
    (fun _ _ ih ihs => List.forall_mem_cons.2 ⟨ih, ihs⟩)
    (fun _ _ ih => ih) draft

/-! ## Repeated keys -/

mutual

/-- No object in the draft has a key twice. -/
def Draft.Distinct : Draft → Prop
  | .array items _ => DistinctItems items
  | .object members _ => (members.map Prod.fst).Nodup ∧ DistinctMembers members
  | _ => True

def DistinctItems : List Draft → Prop
  | [] => True
  | item :: rest => item.Distinct ∧ DistinctItems rest

def DistinctMembers : List (Option String × Draft) → Prop
  | [] => True
  | (_, value) :: rest => value.Distinct ∧ DistinctMembers rest

end

theorem distinctItems_iff {items : List Draft} :
    DistinctItems items ↔ ∀ item ∈ items, item.Distinct := by
  induction items with
  | nil => simp [DistinctItems]
  | cons item rest ih => simp only [DistinctItems, ih, List.forall_mem_cons]

/-! ## Meaning -/

mutual

/-- The draft is complete, has no key twice in an object, and means the value. -/
def Draft.Means : Draft → Json → Prop
  | .null, .null => True
  | .bool b, .bool c => b = c
  | .integer v, .integer w => v = w
  | .float x, .float y => x = some y
  | .string s, .string t => s = some t
  | .array items closed, .array values => closed = true ∧ MeansItems items values
  | .object members closed, .object values => closed = true ∧ MeansMembers members values
  | _, _ => False

def MeansItems : List Draft → List Json → Prop
  | [], [] => True
  | item :: rest, value :: values => item.Means value ∧ MeansItems rest values
  | _, _ => False

def MeansMembers : List (Option String × Draft) → List (String × Json) → Prop
  | [], values => values = []
  | (key, draft) :: rest, values =>
    ∃ k value others, key = some k ∧ draft.Means value ∧ values.Perm ((k, value) :: others) ∧
      k ∉ others.map Prod.fst ∧ MeansMembers rest others

end

theorem meansItems_iff {items : List Draft} {values : List Json} :
    MeansItems items values ↔ List.Forall₂ Draft.Means items values := by
  induction items generalizing values with
  | nil => cases values <;> simp [MeansItems]
  | cons item rest ih => cases values <;> simp [MeansItems, ih]

/-- To reorder members makes no difference. -/
theorem MeansMembers.perm_left {members members' : List (Option String × Draft)}
    {values : List (String × Json)} (h : MeansMembers members values)
    (hperm : members.Perm members') : MeansMembers members' values := by
  induction hperm generalizing values with
  | nil => exact h
  | cons member _ ih =>
    obtain ⟨k, value, others, hkey, hvalue, hvalues, hnew, hrest⟩ := h
    exact ⟨k, value, others, hkey, hvalue, hvalues, hnew, ih hrest⟩
  | swap second first rest =>
    obtain ⟨k, value, others, hkey, hvalue, hvalues, hnew, hrest⟩ := h
    obtain ⟨k', value', others', hkey', hvalue', hvalues', hnew', hrest'⟩ := hrest
    have hkeys : k ∉ k' :: others'.map Prod.fst := fun hk => hnew ((hvalues'.map _).mem_iff.2 hk)
    refine ⟨k', value', (k, value) :: others', hkey', hvalue', ?_, ?_, k, value, others', hkey,
      hvalue, .refl _, List.not_mem_of_not_mem_cons hkeys, hrest'⟩
    · exact hvalues.trans ((hvalues'.cons _).trans (.swap _ _ _))
    · exact List.not_mem_cons_of_ne_of_not_mem (List.ne_of_not_mem_cons hkeys).symm hnew'
  | trans _ _ ih ih' => exact ih' (ih h)

/-- Members mean the values that belong to their keys. -/
theorem MeansMembers.exists_value {members : List (Option String × Draft)}
    {values : List (String × Json)} (h : MeansMembers members values) {key : String} {draft : Draft}
    (hmem : (some key, draft) ∈ members) : ∃ value, (key, value) ∈ values ∧ draft.Means value := by
  induction members generalizing values with
  | nil => cases hmem
  | cons member rest ih =>
    obtain ⟨k, value, others, hkey, hvalue, hvalues, hnew, hrest⟩ := h
    rcases List.mem_cons.1 hmem with rfl | hmem
    · cases hkey
      exact ⟨value, hvalues.mem_iff.2 List.mem_cons_self, hvalue⟩
    · obtain ⟨value', hmem', hvalue'⟩ := ih hrest hmem
      exact ⟨value', hvalues.mem_iff.2 (List.mem_cons_of_mem _ hmem'), hvalue'⟩

/-- Every value is meant by a member with its key. -/
theorem MeansMembers.exists_member {members : List (Option String × Draft)}
    {values : List (String × Json)} (h : MeansMembers members values) {key : String} {value : Json}
    (hmem : (key, value) ∈ values) : ∃ draft, (some key, draft) ∈ members ∧ draft.Means value := by
  induction members generalizing values with
  | nil =>
    obtain rfl : values = [] := h
    cases hmem
  | cons member rest ih =>
    obtain ⟨k, value', others, hkey, hvalue, hvalues, hnew, hrest⟩ := h
    rcases List.mem_cons.1 (hvalues.mem_iff.1 hmem) with heq | hmem
    · obtain ⟨rfl, rfl⟩ := Prod.mk.inj heq
      exact ⟨member.2, hkey ▸ List.mem_cons_self, hvalue⟩
    · obtain ⟨draft, hmem', hdraft⟩ := ih hrest hmem
      exact ⟨draft, List.mem_cons_of_mem _ hmem', hdraft⟩

/-- The keys of the members are those of the values, each once. -/
theorem MeansMembers.keys {members : List (Option String × Draft)} {values : List (String × Json)}
    (h : MeansMembers members values) :
    (members.map Prod.fst).Perm (values.map fun member => some member.1) ∧
      (values.map Prod.fst).Nodup := by
  induction members generalizing values with
  | nil =>
    obtain rfl : values = [] := h
    exact ⟨.refl _, List.nodup_nil⟩
  | cons member rest ih =>
    obtain ⟨k, value, others, hkey, -, hvalues, hnew, hrest⟩ := h
    obtain ⟨hperm, hnodup⟩ := ih hrest
    constructor
    · rw [List.map_cons, hkey]
      exact (hperm.cons _).trans (hvalues.map fun member : String × Json => some member.1).symm
    · exact (hvalues.map Prod.fst).nodup_iff.2 (List.nodup_cons.2 ⟨hnew, hnodup⟩)

theorem MeansMembers.nodup {members : List (Option String × Draft)}
    {values : List (String × Json)} (h : MeansMembers members values) :
    (members.map Prod.fst).Nodup := by
  obtain ⟨hperm, honce⟩ := h.keys
  have hsome := honce.map (Option.some_injective String)
  rw [List.map_map] at hsome
  exact hperm.nodup_iff.2 hsome

theorem MeansMembers.exists_key {members : List (Option String × Draft)}
    {values : List (String × Json)} (h : MeansMembers members values)
    {member : Option String × Draft} (hmem : member ∈ members) : ∃ key, member.1 = some key := by
  have hkey := h.keys.1.mem_iff.1 (List.mem_map_of_mem hmem)
  obtain ⟨value, -, hkey⟩ := List.mem_map.1 hkey
  exact ⟨value.1, hkey.symm⟩

theorem completeItems_iff {items : List Draft} :
    completeItems items = true ↔ ∀ item ∈ items, item.complete = true := by
  induction items with
  | nil => simp [completeItems]
  | cons item rest ih => simp [completeItems, ih]

theorem completeMembers_iff {members : List (Option String × Draft)} :
    completeMembers members = true ↔ ∀ member ∈ members, member.2.complete = true := by
  induction members with
  | nil => simp [completeMembers]
  | cons member rest ih => simp [completeMembers, ih]

/-- A draft that means something is complete. -/
theorem Draft.Means.complete {draft : Draft} {value : Json} (h : draft.Means value) :
    draft.complete = true := by
  induction draft generalizing value with
  | broken => cases value <;> cases h
  | array items closed ih =>
    cases value with
    | array values =>
      obtain ⟨rfl, hitems⟩ := h
      rw [Draft.complete, Bool.true_and, completeItems_iff]
      intro item hi
      obtain ⟨value, -, hitem⟩ := Decode.forall₂_mem_left (meansItems_iff.1 hitems) hi
      exact ih item hi hitem
    | _ => cases h
  | object members closed ih =>
    cases value with
    | object values =>
      obtain ⟨rfl, hmembers⟩ := h
      rw [Draft.complete, Bool.true_and, completeMembers_iff]
      rintro ⟨key, draft⟩ hm
      obtain ⟨k, rfl⟩ := hmembers.exists_key hm
      obtain ⟨value, -, hvalue⟩ := hmembers.exists_value hm
      exact ih _ hm hvalue
    | _ => cases h
  | _ => rfl

/-! ## Values of drafts -/

theorem addMember_perm {key : String} {value : Json} {members : List (String × Json)}
    (h : key ∉ members.map Prod.fst) :
    (addMember key value members).Perm ((key, value) :: members) := by
  induction members with
  | nil => exact .refl _
  | cons member rest ih =>
    obtain ⟨k, v⟩ := member
    have hne : key ≠ k := List.ne_of_not_mem_cons h
    simp only [addMember, if_neg hne]
    split
    · exact .refl _
    · exact ((ih (List.not_mem_of_not_mem_cons h)).cons _).trans (.swap _ _ _)

theorem valueItems?_eq_some_iff {items : List Draft} {room : Nat} {values : List Json} :
    valueItems? room items = some values ↔
      List.Forall₂ (fun item value => item.value? room = some value) items values := by
  induction items generalizing values with
  | nil => simp [valueItems?, eq_comm]
  | cons item rest ih =>
    simp only [valueItems?, Option.bind_eq_bind, Option.bind_eq_some_iff, ih,
      List.forall₂_cons_left_iff]
    constructor
    · rintro ⟨value, hvalue, others, hothers, hvalues⟩
      exact ⟨value, others, hvalue, hothers, (Option.some.inj hvalues).symm⟩
    · rintro ⟨value, others, hvalue, hothers, rfl⟩
      exact ⟨value, hvalue, others, hothers, rfl⟩

theorem exists_value_of_valueMembers? {members : List (Option String × Draft)} {room : Nat}
    {values : List (String × Json)} (h : valueMembers? room members = some values)
    {member : Option String × Draft} (hmem : member ∈ members) :
    ∃ value, member.2.value? room = some value := by
  induction members generalizing values with
  | nil => cases hmem
  | cons other rest ih =>
    simp only [valueMembers?, Option.bind_eq_bind, Option.bind_eq_some_iff] at h
    obtain ⟨k, -, value, hvalue, others, hothers, -⟩ := h
    rcases List.mem_cons.1 hmem with rfl | hmem
    · exact ⟨value, hvalue⟩
    · exact ih hothers hmem

theorem meansMembers_of_valueMembers? {members : List (Option String × Draft)} {room : Nat}
    {values : List (String × Json)}
    (h : ∀ member ∈ members, ∀ value, member.2.value? room = some value → member.2.Distinct →
      member.2.Means value)
    (hvalues : valueMembers? room members = some values) (hkeys : (members.map Prod.fst).Nodup)
    (hdistinct : DistinctMembers members) : MeansMembers members values := by
  induction members generalizing values with
  | nil =>
    cases hvalues
    rfl
  | cons member rest ih =>
    obtain ⟨hmember, hrest⟩ := List.forall_mem_cons.1 h
    obtain ⟨key, draft⟩ := member
    obtain ⟨hnew, honce⟩ := List.nodup_cons.1 hkeys
    simp only [valueMembers?, Option.bind_eq_bind, Option.bind_eq_some_iff] at hvalues
    obtain ⟨k, rfl, value, hvalue, others, hothers, hvalues⟩ := hvalues
    cases hvalues
    have hmeans := ih hrest hothers honce hdistinct.2
    have hk : k ∉ others.map Prod.fst := by
      simpa using mt hmeans.keys.1.mem_iff.2 hnew
    exact ⟨k, value, others, rfl, hmember value hvalue hdistinct.1, addMember_perm hk, hk, hmeans⟩

/-- A draft without repeated keys means its value. -/
theorem Draft.means_of_value? {draft : Draft} {room : Nat} {value : Json}
    (h : draft.value? room = some value) (hdistinct : draft.Distinct) : draft.Means value := by
  induction draft generalizing room value with
  | broken => simp [value?] at h
  | null | bool | integer =>
    simp only [value?, Option.some.injEq] at h
    subst h
    simp [Means]
  | float x =>
    simp only [value?, Option.map_eq_some_iff] at h
    obtain ⟨y, rfl, rfl⟩ := h
    simp [Means]
  | string s =>
    simp only [value?, Option.map_eq_some_iff] at h
    obtain ⟨t, rfl, rfl⟩ := h
    simp [Means]
  | array items closed ih =>
    cases room with
    | zero => simp [value?] at h
    | succ room =>
      simp only [value?, Option.ite_none_right_eq_some, Option.map_eq_some_iff] at h
      obtain ⟨hclosed, values, hvalues, rfl⟩ := h
      have hitems : ∀ item ∈ items, ∀ value, item.value? room = some value → item.Means value :=
        fun item hi value hvalue => ih item hi hvalue (distinctItems_iff.1 hdistinct item hi)
      refine ⟨hclosed, meansItems_iff.2 ?_⟩
      exact ((List.forall₂_and_left _ _).2 ⟨hitems, valueItems?_eq_some_iff.1 hvalues⟩).imp
        fun item value h => h.1 value h.2
  | object members closed ih =>
    cases room with
    | zero => simp [value?] at h
    | succ room =>
      simp only [value?, Option.ite_none_right_eq_some, Option.map_eq_some_iff] at h
      obtain ⟨hclosed, values, hvalues, rfl⟩ := h
      exact ⟨hclosed, meansMembers_of_valueMembers? (fun member hm _ => ih member hm) hvalues
        hdistinct.1 hdistinct.2⟩

/-! ## Values as drafts -/

theorem meansItems_draft {values : List Json} (h : ∀ value ∈ values, value.draft.Means value) :
    MeansItems (draftItems values) values := by
  induction values with
  | nil => trivial
  | cons value rest ih =>
    obtain ⟨hvalue, hrest⟩ := List.forall_mem_cons.1 h
    exact ⟨hvalue, ih hrest⟩

theorem meansMembers_draft {values : List (String × Json)}
    (h : ∀ member ∈ values, member.2.draft.Means member.2) (hkeys : (values.map Prod.fst).Nodup) :
    MeansMembers (draftMembers values) values := by
  induction values with
  | nil => rfl
  | cons member rest ih =>
    obtain ⟨hmember, hrest⟩ := List.forall_mem_cons.1 h
    obtain ⟨hnew, honce⟩ := List.nodup_cons.1 hkeys
    exact ⟨member.1, member.2, rest, rfl, hmember, .refl _, hnew, ih hrest honce⟩

/-- What a draft means is meant by the draft of that value, too. -/
theorem Draft.Means.draft {draft : Draft} {value : Json} (h : draft.Means value) :
    value.draft.Means value := by
  induction value generalizing draft with
  | array values ih =>
    cases draft with
    | array items closed =>
      refine ⟨rfl, meansItems_draft fun value hv => ?_⟩
      obtain ⟨item, -, hitem⟩ := Decode.forall₂_mem_left (meansItems_iff.1 h.2).flip hv
      exact ih value hv hitem
    | _ => cases h
  | object values ih =>
    cases draft with
    | object members closed =>
      refine ⟨rfl, meansMembers_draft (fun member hm => ?_) h.2.keys.2⟩
      obtain ⟨draft, -, hdraft⟩ := h.2.exists_member hm
      exact ih member hm hdraft
    | _ => cases h
  | _ => simp [Json.draft, Means]

/-! ## Heights -/

theorem heightMembers_perm {values values' : List (String × Json)} (h : values.Perm values') :
    heightMembers values = heightMembers values' := by
  induction h with
  | nil => rfl
  | cons member _ ih => rw [heightMembers, heightMembers, ih]
  | swap => simp only [heightMembers, Nat.max_left_comm]
  | trans _ _ ih ih' => exact ih.trans ih'

theorem MeansItems.height_eq {items : List Draft} {values : List Json}
    (ih : ∀ item ∈ items, ∀ value, item.Means value → item.height = value.height)
    (h : MeansItems items values) : draftHeightItems items = heightItems values := by
  induction items generalizing values with
  | nil =>
    cases values with
    | nil => rfl
    | cons => cases h
  | cons item rest ihrest =>
    cases values with
    | nil => cases h
    | cons value values =>
      obtain ⟨hitem, hrest⟩ := List.forall_mem_cons.1 ih
      rw [draftHeightItems, heightItems, hitem value h.1, ihrest hrest h.2]

theorem MeansMembers.height_eq {members : List (Option String × Draft)}
    {values : List (String × Json)}
    (ih : ∀ member ∈ members, ∀ value, member.2.Means value → member.2.height = value.height)
    (h : MeansMembers members values) : draftHeightMembers members = heightMembers values := by
  induction members generalizing values with
  | nil =>
    obtain rfl : values = [] := h
    rfl
  | cons member rest ihrest =>
    obtain ⟨hmember, hrest⟩ := List.forall_mem_cons.1 ih
    obtain ⟨k, value, others, -, hvalue, hvalues, -, h⟩ := h
    rw [draftHeightMembers, heightMembers_perm hvalues, heightMembers, hmember value hvalue,
      ihrest hrest h]

/-- A draft is as high as what it means. -/
theorem Draft.Means.height_eq {draft : Draft} {value : Json} (h : draft.Means value) :
    draft.height = value.height := by
  induction draft generalizing value with
  | array items closed ih =>
    cases value with
    | array values => rw [height, Json.height, h.2.height_eq ih]
    | _ => cases h
  | object members closed ih =>
    cases value with
    | object values => rw [height, Json.height, h.2.height_eq ih]
    | _ => cases h
  | _ => cases value <;> first | rfl | cases h

/-- A draft that has a value is no higher than there was room for. -/
theorem Draft.height_le_of_value? {draft : Draft} {room : Nat} {value : Json}
    (h : draft.value? room = some value) : draft.height ≤ room := by
  induction draft generalizing room value with
  | array items closed ih =>
    cases room with
    | zero => simp [value?] at h
    | succ room =>
      simp only [value?, Option.ite_none_right_eq_some, Option.map_eq_some_iff] at h
      obtain ⟨-, values, hvalues, -⟩ := h
      rw [height, Nat.add_comm, Nat.add_le_add_iff_right, draftHeightItems_le_iff]
      intro item hi
      obtain ⟨value, -, hvalue⟩ := Decode.forall₂_mem_left (valueItems?_eq_some_iff.1 hvalues) hi
      exact ih item hi hvalue
  | object members closed ih =>
    cases room with
    | zero => simp [value?] at h
    | succ room =>
      simp only [value?, Option.ite_none_right_eq_some, Option.map_eq_some_iff] at h
      obtain ⟨-, values, hvalues, -⟩ := h
      rw [height, Nat.add_comm, Nat.add_le_add_iff_right, draftHeightMembers_le_iff]
      intro member hm
      obtain ⟨value, hvalue⟩ := exists_value_of_valueMembers? hvalues hm
      exact ih member hm hvalue
  | _ => exact Nat.zero_le _

/-! ## Order of members -/

/-- The drafts differ only in the order in which objects have their members. -/
inductive Draft.Reorders : Draft → Draft → Prop
  | members {members members' : List (Option String × Draft)} {closed : Bool}
      (h : members.Perm members') : Reorders (.object members closed) (.object members' closed)
  | item {before after : List Draft} {item item' : Draft} {closed : Bool} (h : Reorders item item') :
      Reorders (.array (before ++ item :: after) closed) (.array (before ++ item' :: after) closed)
  | value {before after : List (Option String × Draft)} {key : Option String} {value value' : Draft}
      {closed : Bool} (h : Reorders value value') :
      Reorders (.object (before ++ (key, value) :: after) closed)
        (.object (before ++ (key, value') :: after) closed)
  | trans {first second third : Draft} (h : Reorders first second) (h' : Reorders second third) :
      Reorders first third

theorem MeansItems.replace {before after : List Draft} {item item' : Draft} {values : List Json}
    (hitem : ∀ value, item.Means value → item'.Means value)
    (h : MeansItems (before ++ item :: after) values) :
    MeansItems (before ++ item' :: after) values := by
  induction before generalizing values with
  | nil =>
    cases values with
    | nil => cases h
    | cons value values => exact ⟨hitem value h.1, h.2⟩
  | cons other before ih =>
    cases values with
    | nil => cases h
    | cons value values => exact ⟨h.1, ih h.2⟩

theorem MeansMembers.replace {before after : List (Option String × Draft)} {key : Option String}
    {draft draft' : Draft} {values : List (String × Json)}
    (hdraft : ∀ value, draft.Means value → draft'.Means value)
    (h : MeansMembers (before ++ (key, draft) :: after) values) :
    MeansMembers (before ++ (key, draft') :: after) values := by
  induction before generalizing values with
  | nil =>
    obtain ⟨k, value, others, hkey, hvalue, hrest⟩ := h
    exact ⟨k, value, others, hkey, hdraft value hvalue, hrest⟩
  | cons member before ih =>
    obtain ⟨k, value, others, hkey, hvalue, hvalues, hnew, hrest⟩ := h
    exact ⟨k, value, others, hkey, hvalue, hvalues, hnew, ih hrest⟩

/-- To reorder members does not change what a draft means. -/
theorem Draft.Reorders.means {draft draft' : Draft} (h : draft.Reorders draft') {value : Json}
    (hmeans : draft.Means value) : draft'.Means value := by
  induction h generalizing value with
  | members hperm =>
    cases value with
    | object values => exact ⟨hmeans.1, hmeans.2.perm_left hperm⟩
    | _ => cases hmeans
  | item _ ih =>
    cases value with
    | array values => exact ⟨hmeans.1, hmeans.2.replace fun _ => ih⟩
    | _ => cases hmeans
  | value _ ih =>
    cases value with
    | object values => exact ⟨hmeans.1, hmeans.2.replace fun _ => ih⟩
    | _ => cases hmeans
  | trans _ _ ih ih' => exact ih' (ih hmeans)

end Screening.Json
