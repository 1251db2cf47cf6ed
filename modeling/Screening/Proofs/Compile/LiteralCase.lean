import Screening.Proofs.Compile.Stages
import Screening.Proofs.Grammar.Strings
import Screening.Proofs.Grammar.Twins
import Screening.Proofs.Rule.Equality
import Screening.Proofs.Token.Raised

/-!
# The case of literals

Whether strings keep their case matters to the strings in quotes and to nothing else. A text compiles
with either option or with none. The two trees differ in the strings that were written in quotes, and
the two errors in the texts of such strings.
-/

namespace Screening

open Text Token

/-! ## Raised strings -/

/-- The second text is the first or its upper case. -/
def Text.SameOrUpper (a b : String) : Prop := b = a ∨ b = upper a

/-- What is written in quotes is put in upper case, and a bare word stays. -/
def Written.raised : Written → Written
  | quoted body => quoted (upper body)
  | bare word => bare word

theorem Token.written?_raised {t : Token} (h : t.kind = .string → t.Quoted) :
    t.raised.written? = t.written?.map Written.raised := by
  by_cases hk : t.kind = .string
  · obtain ⟨body, hbody⟩ := h hk
    simp [written?, hk, text_raised hk, hbody, unquote?_upper hbody, Written.raised]
  · rw [raised_of_ne_string hk]
    unfold written?
    split
    · next hs => exact absurd hs hk
    · rfl
    · rfl

theorem Token.writtenIn_raised {ts : List Token} (h : ∀ t ∈ ts, t.kind = .string → t.Quoted) :
    writtenIn (ts.map raised) = (writtenIn ts).map Written.raised := by
  rw [writtenIn, writtenIn, List.filterMap_map, List.map_filterMap]
  exact List.filterMap_congr fun t ht => written?_raised (h t ht)

/-! ## Errors -/

/-- The second token is the first with its string in upper case, if it is one. -/
structure Token.Recased (t u : Token) : Prop where
  raised : u = t.raised
  quoted : t.kind = .string → t.Quoted

/-- Two errors are equal, or they are syntax errors at one place that tell one cause of tokens that
`T` relates and of rules that are alike. -/
inductive CompileError.Alike (T : Token → Token → Prop) (S : String → String → Prop) :
    CompileError → CompileError → Prop
  | same (e) : Alike T S e e
  | grammatical {e f} : e.category = f.category → e.position = f.position →
      e.fault.Alike T S f.fault → Alike T S (.grammatical e) (.grammatical f)

/-- Errors that are alike are tied to one place. -/
theorem CompileError.Alike.position_eq {T : Token → Token → Prop} {S : String → String → Prop}
    {e f : CompileError} (h : e.Alike T S f) : e.position = f.position := by
  cases h with
  | same => rfl
  | grammatical _ hp _ => exact hp

/-! ## Reading -/

namespace Grammar

/-- The same reading of tokens and of raised tokens. -/
def casings (s : Setting) : Twins where
  first := s
  second := s
  Match := Recased
  Text := SameOrUpper
  category := rfl
  kind h := by rw [h.raised, kind_raised]
  text h hk := by rw [h.raised, raised_of_ne_string hk]
  body h hk := by
    obtain ⟨body, hbody⟩ := h.quoted hk
    rw [h.raised, text_raised hk, hbody, unquote?_upper hbody]
    exact .some (.inr rfl)
  refl _ := .inl rfl

/-- What is read from raised tokens is what is read from the tokens themselves, but for their
strings. -/
theorem read_raised (s : Setting) {ts : List Token}
    (h : ∀ t ∈ ts, t.kind = .string → t.Quoted) :
    (∃ kept raised, read s ts = .ok kept ∧ read s (ts.map Token.raised) = .ok raised ∧
      kept.Alike SameOrUpper raised) ∨
    ∃ e f, read s ts = .error e ∧ read s (ts.map Token.raised) = .error f ∧
      CompileError.Alike Recased SameOrUpper (.grammatical e) (.grammatical f) := by
  have hmatch : List.Forall₂ (casings s).Match ts (ts.map Token.raised) :=
    List.forall₂_map_right_iff.2 (List.forall₂_same.2 fun t ht => ⟨rfl, h t ht⟩)
  have hout := Twins.read_outcome monotone_const (Twins.innerAt_parallel rfl s.maxDepth) hmatch
  change Twins.Outcome (casings s) _ _ (read s ts) (read s (ts.map Token.raised)) at hout
  generalize read s ts = x at hout ⊢
  generalize read s (ts.map Token.raised) = y at hout ⊢
  cases hout with
  | ok halike => exact .inl ⟨_, _, rfl, rfl, halike⟩
  | failed he =>
    refine .inr ⟨_, _, rfl, rfl, ?_⟩
    cases he with
    | token htu hf => exact .grammatical rfl (by rw [htu.raised, position_raised]) hf
    | finish wanted => exact .same _
    | tooDeep htu =>
      rw [htu.raised, position_raised]
      exact .same _
  | exceeded hshort => exact hshort.elim

end Grammar

/-! ## Compiling -/

theorem admitted_raised (options : CompileOptions) (text : String) (category : Category) :
    admitted { options with preserveLiteralCase := false } text category =
      (admitted { options with preserveLiteralCase := true } text category).map
        (List.map raised) := by
  simp only [admitted, scan_raised]
  split
  · rfl
  · split
    · rfl
    · cases scan text with
      | error e => rfl
      | ok ts =>
        show (do
            (Admission.check (ts.map raised) category).mapError CompileError.refused
            return ts.map raised) =
          Except.map (List.map raised) (do
            (Admission.check ts category).mapError CompileError.refused
            return ts)
        rw [keeps_raised.check]
        cases Admission.check ts category <;> rfl

/-- Whether strings keep their case matters to what is in quotes only. With both options the text
compiles, to trees of one shape with equal operators, fields, numbers and truth values, whose strings
are those that are written in the text: with one option as they are written, with the other in upper
case if they are in quotes. Or with both it does not, for one cause at one place. -/
theorem compile_preserveLiteralCase (options : CompileOptions) (text : String)
    (category : Category) :
    (∃ ts kept raised, scan text = .ok ts ∧
      compile { options with preserveLiteralCase := true } text category = .ok kept ∧
      compile { options with preserveLiteralCase := false } text category = .ok raised ∧
      kept.Alike SameOrUpper raised ∧
      kept.strings = (writtenIn ts).map Written.string ∧
      raised.strings = (writtenIn ts).map fun written => written.raised.string) ∨
    ∃ e f, compile { options with preserveLiteralCase := true } text category = .error e ∧
      compile { options with preserveLiteralCase := false } text category = .error f ∧
      e.position = f.position ∧ e.Alike Recased SameOrUpper f := by
  simp only [compile_eq_admitted, admitted_raised]
  cases hadmitted : admitted { options with preserveLiteralCase := true } text category with
  | error e => exact .inr ⟨e, e, rfl, rfl, rfl, .same e⟩
  | ok ts =>
    have hscan : scan text = .ok ts := scan_of_admitted hadmitted
    have hquoted : ∀ t ∈ ts, t.kind = .string → t.Quoted := fun t => quoted_of_scan hscan
    simp only [Except.map, ok_bind]
    rcases Grammar.read_raised ⟨category, options.maxDepth, text.utf8ByteSize⟩ hquoted with
      ⟨kept, raised, hkept, hraised, halike⟩ | ⟨e, f, he, hf, halike⟩
    · left
      have hstrings := Grammar.strings_of_read hraised
      rw [writtenIn_raised hquoted, List.map_map] at hstrings
      refine ⟨ts, kept, raised, hscan, ?_, ?_, halike, Grammar.strings_of_read hkept, hstrings⟩
      · rw [hkept]
        rfl
      · rw [hraised]
        rfl
    · right
      refine ⟨.grammatical e, .grammatical f, ?_, ?_, halike.position_eq, halike⟩
      · rw [he]
        rfl
      · rw [hf]
        rfl

/-- A string can have another number of characters in upper case, and a bare word is in lower case
with either option. -/
example : compile { preserveLiteralCase := false } "TIME = 'straße' OR TIME = Weekend" .composite =
    .ok (.junction .or (.comparison .equal (.field .time) (.literal (.string "STRASSE")))
      (.comparison .equal (.field .time) (.literal (.string "weekend"))) []) := by
  decide +kernel

end Screening
