import Screening.Proofs.Grammar.Gathered
import Screening.Proofs.Grammar.Reader

/-!
# Strings

Where the strings of a rule come from. Every string in quotes and every bare word among the tokens is
a literal of the tree, in the same order, and the tree has no other strings.
-/

namespace Screening

/-! ## Strings of trees and of tokens -/

namespace Rule

/-- The string that a node is. -/
def string? : Rule → Option String
  | .literal (.string s) => some s
  | _ => none

/-- The strings of a rule, from left to right. -/
def strings (rule : Rule) : List String := rule.nodes.filterMap string?

end Rule

/-- A string as it is written: in quotes, or as a bare word. -/
inductive Written
  | quoted (body : String)
  | bare (word : String)
  deriving DecidableEq, Repr

/-- The string itself. -/
def Written.string : Written → String
  | quoted body => body
  | bare word => word

/-- What the token has written, if it stands for a string. Bare words are in lower case. -/
def Token.written? (t : Token) : Option Written :=
  match t.kind with
  | .string => (Grammar.unquote? t.text).map .quoted
  | .identifier => some (.bare (Text.lower t.text))
  | _ => none

/-- The strings that are written in tokens. -/
def Token.writtenIn (ts : List Token) : List Written := ts.filterMap written?

namespace Token

/-- Most tokens write no string. -/
theorem written?_eq_none {t : Token} (hs : t.kind ≠ .string) (hw : t.kind ≠ .identifier) :
    t.written? = none := by
  unfold written?
  split
  · next hk => exact absurd hk hs
  · next hk => exact absurd hk hw
  · rfl

theorem writtenIn_cons {t : Token} (hs : t.kind ≠ .string) (hw : t.kind ≠ .identifier)
    (ts : List Token) : writtenIn (t :: ts) = writtenIn ts :=
  List.filterMap_cons_none (written?_eq_none hs hw)

end Token

namespace Grammar

open Token

/-- The strings that are written in tokens are those of the tree. -/
theorem gathers_strings :
    Gathers Rule.string? fun ts => (writtenIn ts).map Written.string where
  nil := rfl
  literal {t v} h us := by
    cases h with
    | number hk hv =>
      rw [writtenIn_cons (by simp [hk]) (by simp [hk])]
      cases v with
      | string s => exact absurd hv Literal.ofNumberText?_ne_string
      | _ => rfl
    | @string quote body hk hq htext =>
      have hsome : t.written? = some (.quoted (String.ofList body)) := by
        simp [written?, hk, unquote?_quoted hq htext]
      rw [writtenIn, List.filterMap_cons_some hsome]
      rfl
    | bool hk =>
      rw [writtenIn_cons (by simp [hk]) (by simp [hk])]
      rfl
    | word hk =>
      have hsome : t.written? = some (.bare (Text.lower t.text)) := by simp [written?, hk]
      rw [writtenIn, List.filterMap_cons_some hsome]
      rfl
  field hk _ us := by
    rw [writtenIn_cons (by simp [hk]) (by simp [hk])]
    rfl
  aggregate {t opening arg closing _ _} hk _ ho ha hc us := by
    have harg : arg.kind ≠ .string ∧ arg.kind ≠ .identifier := by cases ha <;> simp [*]
    rw [writtenIn_cons (by simp [hk]) (by simp [hk]), writtenIn_cons (by simp [ho]) (by simp [ho]),
      writtenIn_cons harg.1 harg.2, writtenIn_cons (by simp [hc]) (by simp [hc])]
    rfl
  joint {t} hk us := by
    have hs : t.kind ≠ .string ∧ t.kind ≠ .identifier := by
      constructor <;> rintro h <;> simp [h, TokenKind.joins] at hk
    rw [writtenIn_cons hs.1 hs.2]
  inner {rule} h := by
    cases rule <;> first | rfl | cases h

/-- A tree that was read has the strings that its tokens have written, in their order. -/
theorem strings_of_read {s : Setting} {ts : List Token} {rule : Rule}
    (h : read s ts = .ok rule) : rule.strings = (writtenIn ts).map Written.string :=
  (gathers_strings.of_read h).symm

end Grammar

end Screening
