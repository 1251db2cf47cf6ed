import Screening.Compile
import Screening.Proofs.Rule.Equality
import Screening.Proofs.Token.CaseFolding

/-!
# The case of a text

Outside of strings the case of a text does not matter. A text in upper case compiles to the same rule
as the text itself, or fails with the same error at the same place. Strings are left out of this only
if they keep their case.
-/

namespace Screening

open Text Token

theorem utf8ByteSize_upperAscii (text : String) :
    (upperAscii text).utf8ByteSize = text.utf8ByteSize := by
  rw [← byteLength_toList, ← byteLength_toList, toList_upperAscii, byteLength_map_toUpper]

theorem allBlank_upperAscii (text : String) : allBlank (upperAscii text) = allBlank text := by
  simp [allBlank, Function.comp_def, (caseFacts _).isBlank]

/-- A text is compiled as it is in upper case, to the same rule or the same error, if strings do not
keep their case or there are none in the text. -/
theorem compile_upperAscii (options : CompileOptions) (text : String) (category : Category)
    (h : options.preserveLiteralCase = true → Quoteless text) :
    compile options (upperAscii text) category = compile options text category := by
  simp only [compile, allBlank_upperAscii, utf8ByteSize_upperAscii, scan_upperAscii h]

/-- A misspelled operator in a text without quotes. -/
theorem compile_upperAscii_misspelled :
    Quoteless "not Amount >= 5 xor time = Night" ∧
      compile {} "NOT AMOUNT >= 5 XOR TIME = NIGHT" .composite =
        compile {} "not Amount >= 5 xor time = Night" .composite := by
  have hquote : Quoteless "not Amount >= 5 xor time = Night" := by decide
  have hupper : upperAscii "not Amount >= 5 xor time = Night" =
      "NOT AMOUNT >= 5 XOR TIME = NIGHT" := by
    decide
  refine ⟨hquote, ?_⟩
  rw [← hupper]
  exact compile_upperAscii {} "not Amount >= 5 xor time = Night" .composite fun _ => hquote

/-- A string that keeps its case is another one in upper case. -/
example : compile {} "time = 'night'" .threshold =
      .ok (.comparison .equal (.field .time) (.literal (.string "night"))) ∧
    compile {} (upperAscii "time = 'night'") .threshold =
      .ok (.comparison .equal (.field .time) (.literal (.string "NIGHT"))) := by
  decide +kernel

end Screening
