import Screening.Json.Read
import Screening.Proofs.Json.Reread
import Screening.Proofs.Json.String
import Screening.Proofs.Json.Tree

/-!
# Compact text is read back

The compact text of a value is read as the draft of the value, whatever follows it and with as
many steps as a whole text is read with. Each float in the draft is what the reading makes of the
text of the one in the value. So the text stands for the value with sorted keys and with these floats,
provided that arrays and objects enclose one another no more often than a text may have them.
-/

namespace Screening.Json

open Number

/-! ## First characters -/

theorem skip_cons {c : Char} {cs : List Char} (h : Text.isSpace c = false) :
    skip (c :: cs) = c :: cs := by
  simp [skip, h]

theorem skip_of_isEnd {c : Char} {cs : List Char} (h : isEnd c = true) :
    skip (c :: cs) = c :: cs := by
  simp only [isEnd, Bool.or_eq_true, beq_iff_eq] at h
  rcases h with (rfl | rfl) | rfl <;> rfl

/-- What is needed of the first character of a value: it is no blank and ends nothing. -/
structure Opens (c : Char) : Prop where
  isSpace : Text.isSpace c = false
  isEnd : isEnd c = false

/-- A character that a number begins with. -/
def startsNumber (c : Char) : Bool := c == '-' || c.isDigit

/-- What is needed of the first character of a number: no other value begins with it. -/
structure NumberFacts (c : Char) : Prop where
  opens : Opens c
  ne_brace : c ≠ '{'
  ne_bracket : c ≠ '['
  ne_quote : c ≠ '"'
  ne_null : c ≠ 'n'
  ne_true : c ≠ 't'
  ne_false : c ≠ 'f'

theorem numberFacts {c : Char} (h : startsNumber c = true) : NumberFacts c := by
  have hascii : c.toNat < 128 := by
    simp only [startsNumber, Bool.or_eq_true, beq_iff_eq] at h
    rcases h with rfl | h
    · decide
    · exact Text.toNat_lt_of_isDigit h
  have key := Text.forall_ascii (p := startsNumber) (q := fun c => !Text.isSpace c && !isEnd c &&
    c != '{' && c != '[' && c != '"' && c != 'n' && c != 't' && c != 'f') (by decide) hascii h
  simp only [Bool.and_eq_true, Bool.not_eq_true', bne_iff_ne] at key
  obtain ⟨⟨⟨⟨⟨⟨⟨hs, he⟩, hb⟩, hk⟩, hq⟩, hn⟩, ht⟩, hf⟩ := key
  exact ⟨⟨hs, he⟩, hb, hk, hq, hn, ht, hf⟩

theorem exists_signText_cons (negative : Bool) {digits : List Char} (h : IsDigits digits)
    (rest : List Char) :
    ∃ c cs, signText negative ++ (digits ++ rest) = c :: cs ∧ startsNumber c = true := by
  cases negative with
  | true => exact ⟨'-', _, rfl, rfl⟩
  | false =>
    obtain ⟨d, ds, rfl, hd⟩ := h.cons
    exact ⟨d, ds ++ rest, rfl, by rw [startsNumber, hd, Bool.or_true]⟩

theorem exists_repr_cons (v : Int) : ∃ c cs, v.repr.toList = c :: cs ∧ startsNumber c = true := by
  have h := exists_signText_cons (decide (v < 0)) (isDigits_toDigits v.natAbs) []
  rwa [List.append_nil, ← toList_repr] at h

theorem exists_float_cons (x : Binary64) :
    ∃ c cs, (x.write numberStyle).toList = c :: cs ∧ startsNumber c = true := by
  obtain ⟨parts, htext, hdigital, -⟩ := x.writes_write numberStyle (by decide)
  rw [htext]
  exact exists_signText_cons x.negative hdigital.whole _

/-! ## Fronts -/

/-- The text that is written in front of whatever follows. It is not empty, and no blank is
skipped in it. -/
def HasFront (value : Json) : Prop :=
  ∃ c cs, Opens c ∧ ∀ after, value.write after = c :: (cs ++ after)

theorem exists_writeItems_eq {items : List Json} (h : ∀ item ∈ items, item.HasFront) :
    ∃ cs, ∀ after, writeItems items after = cs ++ after := by
  induction items with
  | nil => exact ⟨[], fun _ => rfl⟩
  | cons item rest ih =>
    obtain ⟨⟨c, front, -, hitem⟩, hrest⟩ := List.forall_mem_cons.1 h
    obtain ⟨cs, hcs⟩ := ih hrest
    exact ⟨',' :: c :: (front ++ cs), fun after => by simp [writeItems, hitem, hcs]⟩

theorem exists_writeMembers_eq {members : List (String × Json)}
    (h : ∀ member ∈ members, member.2.HasFront) :
    ∃ cs, ∀ after, writeMembers members after = cs ++ after := by
  induction members with
  | nil => exact ⟨[], fun _ => rfl⟩
  | cons member rest ih =>
    obtain ⟨⟨c, front, -, hvalue⟩, hrest⟩ := List.forall_mem_cons.1 h
    obtain ⟨cs, hcs⟩ := ih hrest
    exact ⟨',' :: writeString member.1 (':' :: c :: (front ++ cs)), fun after => by
      simp [writeMembers, writeString, hvalue, hcs]⟩

theorem hasFront (value : Json) : value.HasFront := by
  induction value with
  | null => exact ⟨'n', "ull".toList, ⟨rfl, rfl⟩, fun _ => rfl⟩
  | bool b =>
    cases b with
    | false => exact ⟨'f', "alse".toList, ⟨rfl, rfl⟩, fun _ => rfl⟩
    | true => exact ⟨'t', "rue".toList, ⟨rfl, rfl⟩, fun _ => rfl⟩
  | integer v =>
    obtain ⟨c, cs, htext, hc⟩ := exists_repr_cons v
    exact ⟨c, cs, (numberFacts hc).opens, fun _ => by rw [write, htext, List.cons_append]⟩
  | float x =>
    obtain ⟨c, cs, htext, hc⟩ := exists_float_cons x
    exact ⟨c, cs, (numberFacts hc).opens, fun _ => by rw [write, htext, List.cons_append]⟩
  | string s => exact ⟨'"', s.toList.flatMap escape ++ ['"'], ⟨rfl, rfl⟩, fun after => by
      simp [write, writeString]⟩
  | array items ih =>
    cases items with
    | nil => exact ⟨'[', [']'], ⟨rfl, rfl⟩, fun _ => rfl⟩
    | cons item rest =>
      obtain ⟨⟨c, front, -, hitem⟩, hrest⟩ := List.forall_mem_cons.1 ih
      obtain ⟨cs, hcs⟩ := exists_writeItems_eq hrest
      exact ⟨'[', c :: (front ++ (cs ++ [']'])), ⟨rfl, rfl⟩, fun after => by
        simp [write, hitem, hcs]⟩
  | object members ih =>
    cases members with
    | nil => exact ⟨'{', ['}'], ⟨rfl, rfl⟩, fun _ => rfl⟩
    | cons member rest =>
      obtain ⟨⟨c, front, -, hvalue⟩, hrest⟩ := List.forall_mem_cons.1 ih
      obtain ⟨cs, hcs⟩ := exists_writeMembers_eq hrest
      exact ⟨'{', writeString member.1 (':' :: c :: (front ++ (cs ++ ['}']))), ⟨rfl, rfl⟩,
        fun after => by simp [write, writeString, hvalue, hcs]⟩

/-- Every value takes up some of the text. -/
theorem length_lt_write (value : Json) (after : List Char) :
    after.length < (value.write after).length := by
  obtain ⟨c, cs, -, h⟩ := value.hasFront
  rw [h, List.length_cons, List.length_append]
  omega

/-- A text that begins with a value has no blanks to skip and closes nothing. -/
theorem exists_write_cons (value : Json) (after : List Char) :
    ∃ c cs, value.write after = c :: cs ∧ Opens c := by
  obtain ⟨c, cs, hc, h⟩ := value.hasFront
  exact ⟨c, cs ++ after, h after, hc⟩

/-! ## Values -/

section

variable {floats : FloatReading} {f : Binary64 → Binary64}

/-- A text whose first character is a number's is read as a number. -/
theorem readValue_number {c : Char} {cs : List Char} (h : startsNumber c = true) (steps : Nat) :
    readValue floats (steps + 1) (c :: cs) = match number? floats (c :: cs) with
      | some (number, after) => (number, some after)
      | none => (.broken, none) := by
  have hc := numberFacts h
  rw [readValue, skip_cons hc.opens.isSpace]
  split
  · next heq => exact absurd (List.cons.inj heq).1 hc.ne_brace
  · next heq => exact absurd (List.cons.inj heq).1 hc.ne_bracket
  · next heq => exact absurd (List.cons.inj heq).1 hc.ne_quote
  · next heq => exact absurd (List.cons.inj heq).1 hc.ne_null
  · next heq => exact absurd (List.cons.inj heq).1 hc.ne_true
  · next heq => exact absurd (List.cons.inj heq).1 hc.ne_false
  · rfl

/-- The value is read as its draft whatever follows it, with floats as `f` makes them. Two steps for
each character of the text are enough, since every second step at least goes on to the next character. -/
def ReadsBack (floats : FloatReading) (f : Binary64 → Binary64) (value : Json) : Prop :=
  ∀ after steps, Ends after → 2 * (value.write after).length ≤ steps →
    readValue floats steps (value.write after) = ((value.mapFloats f).draft, some after)

/-- No value is read in no steps, but none needs to be. -/
theorem readsBack_of_succ {value : Json}
    (h : ∀ after steps, Ends after → 2 * (value.write after).length ≤ steps + 1 →
      readValue floats (steps + 1) (value.write after) =
        ((value.mapFloats f).draft, some after)) :
    value.ReadsBack floats f := by
  intro after steps ha hs
  have hlen := length_lt_write value after
  obtain ⟨steps, rfl⟩ := Nat.exists_eq_succ_of_ne_zero (n := steps) (by omega)
  exact h after steps ha hs

theorem readItems_write {item : Json} {rest : List Json}
    (h : ∀ x ∈ item :: rest, x.ReadsBack floats f) (after : List Char) (steps : Nat)
    (hs : 2 * (item.write (writeItems rest (']' :: after))).length < steps) :
    readItems floats steps (item.write (writeItems rest (']' :: after))) =
      (draftItems (mapFloatsItems f (item :: rest)), some after) := by
  induction rest generalizing item steps with
  | nil =>
    obtain ⟨steps, rfl⟩ := Nat.exists_eq_succ_of_ne_zero (Nat.ne_zero_of_lt hs)
    have hitem := h item List.mem_cons_self (']' :: after) steps (ends_cons.2 rfl)
      (Nat.le_of_lt_succ hs)
    rw [writeItems, readItems, hitem]
    rfl
  | cons next rest ih =>
    obtain ⟨hitem, hrest⟩ := List.forall_mem_cons.1 h
    obtain ⟨steps, rfl⟩ := Nat.exists_eq_succ_of_ne_zero (Nat.ne_zero_of_lt hs)
    have hfirst := hitem (writeItems (next :: rest) (']' :: after)) steps (ends_cons.2 rfl)
      (Nat.le_of_lt_succ hs)
    have hlen := length_lt_write item (writeItems (next :: rest) (']' :: after))
    simp only [writeItems, List.length_cons] at hs hlen
    have hmore := ih hrest steps (by omega)
    rw [readItems, hfirst]
    simp only [writeItems, skip_of_isEnd (c := ',') rfl, hmore]
    rfl

theorem length_writeString (s : String) (after : List Char) :
    after.length < (writeString s after).length := by
  simp only [writeString, List.length_cons, List.length_append]
  omega

theorem readMembers_write {member : String × Json} {rest : List (String × Json)}
    (h : ∀ m ∈ member :: rest, m.2.ReadsBack floats f) (after : List Char) (steps : Nat)
    (hs : 2 * (writeString member.1
      (':' :: member.2.write (writeMembers rest ('}' :: after)))).length < steps) :
    readMembers floats steps (writeString member.1
        (':' :: member.2.write (writeMembers rest ('}' :: after)))) =
      (draftMembers (mapFloatsMembers f (member :: rest)), some after) := by
  induction rest generalizing member steps with
  | nil =>
    obtain ⟨steps, rfl⟩ := Nat.exists_eq_succ_of_ne_zero (Nat.ne_zero_of_lt hs)
    have hlen := length_writeString member.1 (':' :: member.2.write ('}' :: after))
    rw [writeMembers] at hs ⊢
    have hvalue := h member List.mem_cons_self ('}' :: after) steps (ends_cons.2 rfl) (by
      rw [List.length_cons] at hlen
      omega)
    rw [writeString, readMembers, skip_cons rfl]
    simp only [string?_escape, skip_cons (c := ':') rfl, hvalue]
    rfl
  | cons next rest ih =>
    obtain ⟨hmember, hrest⟩ := List.forall_mem_cons.1 h
    obtain ⟨steps, rfl⟩ := Nat.exists_eq_succ_of_ne_zero (Nat.ne_zero_of_lt hs)
    have hkey := length_writeString member.1
      (':' :: member.2.write (writeMembers (next :: rest) ('}' :: after)))
    have hlen := length_lt_write member.2 (writeMembers (next :: rest) ('}' :: after))
    have hvalue := hmember (writeMembers (next :: rest) ('}' :: after)) steps (ends_cons.2 rfl) (by
      rw [List.length_cons] at hkey
      omega)
    simp only [writeMembers, List.length_cons] at hs hkey hlen hvalue ⊢
    have hmore := ih hrest steps (by omega)
    rw [writeString, readMembers, skip_cons rfl]
    simp only [string?_escape, skip_cons (c := ':') rfl, hvalue, skip_of_isEnd (c := ',') rfl, hmore]
    rfl

theorem readsBack_array {items : List Json} (h : ∀ item ∈ items, item.ReadsBack floats f) :
    (array items).ReadsBack floats f := by
  refine readsBack_of_succ fun after steps _ hs => ?_
  cases items with
  | nil => rfl
  | cons item rest =>
    rw [write, List.length_cons] at hs
    have hread := readItems_write h after steps (by omega)
    obtain ⟨c, cs, hcs, hc⟩ := exists_write_cons item (writeItems rest (']' :: after))
    rw [write, readValue, skip_cons rfl]
    simp only [hcs, skip_cons hc.isSpace] at hread ⊢
    split
    · next heq =>
      have hend := hc.isEnd
      rw [(List.cons.inj heq).1] at hend
      cases hend
    · rw [hread]
      rfl

theorem readsBack_object {members : List (String × Json)}
    (h : ∀ member ∈ members, member.2.ReadsBack floats f) :
    (object members).ReadsBack floats f := by
  refine readsBack_of_succ fun after steps _ hs => ?_
  cases members with
  | nil => rfl
  | cons member rest =>
    rw [write, List.length_cons] at hs
    have hread := readMembers_write h after steps (by omega)
    rw [write, readValue, skip_cons rfl]
    simp only [writeString, skip_cons (c := '"') rfl] at hread ⊢
    split
    · next heq => exact absurd (List.cons.inj heq).1 (by decide)
    · rw [hread]
      rfl

theorem readsBack_integer {v : Int} (hv : FitsNumber v) : (integer v).ReadsBack floats f := by
  refine readsBack_of_succ fun after steps ha _ => ?_
  obtain ⟨c, cs, htext, hc⟩ := exists_repr_cons v
  have hread := number?_repr floats hv ha
  rw [htext, List.cons_append] at hread
  rw [write, htext, List.cons_append, readValue_number hc, hread]
  rfl

theorem readsBack_float (hf : floats.Rereads f) (x : Binary64) :
    (float x).ReadsBack floats f := by
  refine readsBack_of_succ fun after steps ha _ => ?_
  obtain ⟨c, cs, htext, hc⟩ := exists_float_cons x
  have hread := number?_write hf x ha
  rw [htext, List.cons_append] at hread
  rw [write, htext, List.cons_append, readValue_number hc, hread]
  rfl

/-- Every writable value is read back. -/
theorem readsBack (hf : floats.Rereads f) {value : Json} (hw : value.Writable) :
    value.ReadsBack floats f := by
  induction value with
  | null => exact readsBack_of_succ fun _ _ _ _ => rfl
  | bool b => cases b <;> exact readsBack_of_succ fun _ _ _ _ => rfl
  | integer v => exact readsBack_integer hw
  | float x => exact readsBack_float hf x
  | string s =>
    refine readsBack_of_succ fun after steps _ _ => ?_
    rw [write, writeString, readValue, skip_cons rfl]
    simp only [string?_escape]
    rfl
  | array items ih =>
    have hitems := writableItems_iff.1 hw
    exact readsBack_array fun item hi => ih item hi (hitems item hi)
  | object members ih =>
    have hmembers := writableMembers_iff.1 hw
    exact readsBack_object fun member hm => ih member hm (hmembers member hm)

/-! ## Whole texts -/

/-- The text of a value is the value's draft and nothing else. -/
theorem readDraft_text (hf : floats.Rereads f) {value : Json} (hw : value.Writable) :
    readDraft value.text floats = ((value.mapFloats f).draft, true) := by
  have hread := readsBack hf hw [] (2 * (value.write []).length + 2) .nil (by omega)
  simp only [readDraft, text, String.toList_ofList, hread]
  rfl

/-- The text of a value stands for the value with sorted keys unless it is too deep. -/
theorem parse?_text (hf : floats.Rereads f) {value : Json} (hw : value.Writable) :
    parse? value.text floats =
      if (value.mapFloats f).height ≤ maxNesting then some (value.mapFloats f).sorted else none := by
  simp only [parse?, readDraft_text hf hw, if_true, value?_draft]

end

end Screening.Json
