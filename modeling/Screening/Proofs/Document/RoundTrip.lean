import Screening.Proofs.Document.Decoding
import Screening.Proofs.Document.Equality
import Screening.Proofs.Document.Floats
import Screening.Proofs.Json.Reading

/-!
# Stored rules

A rule comes back from its document, however deep it is, and from the text of its document unless the
document is deeper than what is read of a text. Of a text its floats are read as well as the reading
of floats can: with correct rounding they are the same.
-/

namespace Screening

/-! ## Writable documents -/

theorem fitsNumber_of_fits64 {v : Int} (h : Literal.fits64 v = true) : Json.FitsNumber v := by
  have := Literal.fits64_iff.1 h
  simp only [Json.FitsNumber]
  omega

theorem writable_tagged {τ : Type} [Named τ] {tag : τ} {body : Json} (h : body.Writable) :
    (tagged tag body).Writable := ⟨h, trivial⟩

theorem writable_encodeRef (name : Field) : name.encodeRef.Writable := ⟨trivial, trivial⟩

theorem writable_encode_literal (value : Literal) : value.encode.Writable := by
  cases value with
  | int32 v =>
    exact writable_tagged (fitsNumber_of_fits64 (Literal.fits64_of_fits32 (Literal.fits32_int32 v)))
  | int64 v => exact writable_tagged (fitsNumber_of_fits64 (Literal.fits64_int64 v))
  | _ => exact writable_tagged trivial

theorem writable_encode_aggregate (call : Aggregate) : call.encode.Writable := by
  obtain ⟨function, operand⟩ := call
  have hoperand : operand.encode.Writable := by
    cases operand with
    | field name => exact writable_tagged (writable_encodeRef name)
    | wildcard => exact writable_tagged trivial
  exact ⟨trivial, hoperand, trivial⟩

namespace Rule

theorem writable_logicalBody {op : LogicOp} {items : List Json}
    (h : ∀ item ∈ items, item.Writable) : (logicalBody op items).Writable :=
  ⟨trivial, Json.writableItems_iff.2 h, trivial⟩

theorem writable_encode (rule : Rule) : rule.encode.Writable := by
  induction rule with
  | literal value => exact writable_tagged (writable_encode_literal value)
  | field name => exact writable_tagged (writable_encodeRef name)
  | wildcard => exact writable_tagged trivial
  | aggregate call => exact writable_tagged (writable_encode_aggregate call)
  | comparison op left right ihl ihr => exact writable_tagged ⟨trivial, ihl, ihr, trivial⟩
  | negation operand ih =>
    exact writable_tagged (writable_logicalBody (List.forall_mem_singleton.2 ih))
  | junction op first second more ihf ihs ihm =>
    have hmore : ∀ item ∈ encodeAll more, item.Writable := by
      rw [encodeAll_eq]
      exact List.forall_mem_map.2 ihm
    exact writable_tagged (writable_logicalBody
      (List.forall_mem_cons.2 ⟨ihf, List.forall_mem_cons.2 ⟨ihs, hmore⟩⟩))

/-! ## Texts -/

section

variable {floats : Json.FloatReading} {f : Number.Binary64 → Number.Binary64}

/-- The text of a rule's document is read as the document up to its floats, and all of it is read. -/
theorem readDraft_jsonText (hf : floats.Rereads f) (rule : Rule) :
    Json.readDraft rule.jsonText floats = ((rule.mapFloats f).encode.draft, true) := by
  rw [encode_mapFloats]
  exact Json.readDraft_text hf rule.writable_encode

theorem ofJsonText_jsonText (hf : floats.Rereads f) (rule : Rule) :
    ofJsonText rule.jsonText floats =
      if rule.documentHeight ≤ Json.maxNesting then .ok (rule.mapFloats f)
      else .error .malformed := by
  simp only [ofJsonText, Decode.ofText, readDraft_jsonText hf, Decode.decodes_encode _ _,
    documentHeight_mapFloats]
  split <;> rfl

theorem parse?_jsonText (hf : floats.Rereads f) (rule : Rule) :
    Json.parse? rule.jsonText floats =
      if rule.documentHeight ≤ Json.maxNesting then some (rule.mapFloats f).document else none := by
  rw [jsonText, Json.parse?_text hf rule.writable_encode, ← encode_mapFloats, height_encode,
    documentHeight_mapFloats]
  rfl

theorem ofJsonText_jsonText_eq_ok_iff (h : floats.CorrectlyRounded) (rule : Rule) :
    ofJsonText rule.jsonText floats = .ok rule ↔ rule.documentHeight ≤ 127 := by
  rw [ofJsonText_jsonText h.rereads, mapFloats_id]
  by_cases hle : rule.documentHeight ≤ Json.maxNesting
  · rw [if_pos hle]
    exact ⟨fun _ => hle, fun _ => rfl⟩
  · rw [if_neg hle]
    exact ⟨nofun, fun h => absurd h hle⟩

end

/-- If floats are read with correct rounding, a rule reloads from the text of its document, and the
text stands for the document, exactly if at most 127 arrays and objects enclose one another in it.
Depth 42 is never too much, and depth 64 always is. -/
theorem jsonText_roundTrip {floats : Json.FloatReading} (h : floats.CorrectlyRounded) (rule : Rule) :
    ofJsonText rule.jsonText floats =
        (if rule.documentHeight ≤ 127 then .ok rule else .error .malformed) ∧
      Json.parse? rule.jsonText floats =
        (if rule.documentHeight ≤ 127 then some rule.document else none) ∧
      (rule.depth ≤ 42 → ofJsonText rule.jsonText floats = .ok rule) ∧
      (64 ≤ rule.depth → ofJsonText rule.jsonText floats = .error .malformed) := by
  have hlt := rule.documentHeight_lt
  have hle := rule.depth_le
  have hread := rule.ofJsonText_jsonText h.rereads
  have hvalue := rule.parse?_jsonText h.rereads
  rw [mapFloats_id] at hread hvalue
  refine ⟨hread, hvalue, fun hdepth => ?_, fun hdepth => ?_⟩
  · rw [hread, if_pos (by simp only [Json.maxNesting]; omega)]
  · rw [hread, if_neg (by simp only [Json.maxNesting]; omega)]

/-- The smallest number above one hundred. It is written with seventeen digits. -/
def aboveHundred : Rule :=
  .literal (.float ⟨false, 0x19000000000001, 1028, by decide, by decide, .inr (by decide)⟩)

theorem jsonText_roundTrip_aboveHundred :
    ofJsonText aboveHundred.jsonText .nearest = .ok aboveHundred ∧
      Json.parse? aboveHundred.jsonText .nearest = some aboveHundred.document := by
  have hround := jsonText_roundTrip Json.FloatReading.correctlyRounded_nearest aboveHundred
  have hheight : aboveHundred.documentHeight ≤ 127 := by decide
  rw [if_pos hheight, if_pos hheight] at hround
  exact ⟨hround.1, hround.2.1⟩

/-! ## Values -/

/-- A rule comes back from its document, however deep it is. So rules with one document are one, and
rules whose documents differ in signs of zeros alone differ in these alone. -/
theorem document_roundTrip (rule other : Rule) :
    ofDocument rule.document = .ok rule ∧
      (rule.document = other.document → rule = other) ∧
      (rule.document.same other.document = true ↔ rule.same other = true) := by
  have hread (rule : Rule) : ofDocument rule.document = .ok rule := by
    rw [ofDocument, Decode.decodes_document rule, if_pos (Nat.le_of_eq rule.height_document.symm)]
  refine ⟨hread rule, fun heq => ?_, same_document rule other⟩
  have hok : Except.ok (ε := DecodeFault) rule = .ok other := by
    rw [← hread rule, heq, hread other]
  exact Except.ok.inj hok

end Rule

end Screening
