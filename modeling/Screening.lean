import Screening.Vocabulary.Lookup
import Screening.Rule.Builder
import Screening.Rule.Text
import Screening.Compile
import Screening.Document.Encode
import Screening.Document.Decode
import Screening.Proofs.Grammar.Derivation
import Screening.Proofs.Grammar.Reader
import Screening.Proofs.Grammar.Soundness
import Screening.Proofs.Grammar.Completeness
import Screening.Proofs.Number.Rounding
import Screening.Proofs.Number.ReadBack
import Screening.Proofs.Number.Layout
import Screening.Proofs.Number.Written
import Screening.Proofs.Rule.Literal
import Screening.Proofs.Grammar.Binding
import Screening.Proofs.Grammar.Admitted
import Screening.Proofs.Grammar.Breaches
import Screening.Proofs.Token.Lexeme
import Screening.Proofs.Token.Longest
import Screening.Proofs.Token.Scanning
import Screening.Proofs.Token.Spelling
import Screening.Proofs.Rule.Printed
import Screening.Proofs.Token.Quoting
import Screening.Proofs.Compile.Shape
import Screening.Proofs.Rule.Equality
import Screening.Proofs.Compile.Canonical
import Screening.Proofs.Number.Nearest
import Screening.Proofs.Number.Arithmetic
import Screening.Proofs.Json.Float
import Screening.Proofs.Json.Number
import Screening.Proofs.Json.Reread
import Screening.Proofs.Json.String
import Screening.Proofs.Json.Tree
import Screening.Proofs.Json.Reading
import Screening.Proofs.Document.Height
import Screening.Proofs.Document.Floats
import Screening.Proofs.Document.Sorted
import Screening.Proofs.Document.Shape
import Screening.Proofs.Document.Decoding
import Screening.Proofs.Document.Equality
import Screening.Proofs.Document.RoundTrip
import Screening.Proofs.Document.Bounds
import Screening.Proofs.Document.Record
import Screening.Proofs.Document.Places
import Screening.Proofs.Document.Checked
import Screening.Proofs.Document.Meaning
import Screening.Proofs.Document.Kept
import Screening.Proofs.Document.Agreement
import Screening.Proofs.Compile.Storage
import Screening.Proofs.Token.Coverage
import Screening.Proofs.Token.Failure
import Screening.Proofs.Token.Seams
import Screening.Proofs.Grammar.Parts
import Screening.Proofs.Compile.Composition
import Screening.Proofs.Grammar.Words
import Screening.Proofs.Compile.Misspelled
import Screening.Proofs.Number.Scanned
import Screening.Proofs.Rule.Classified
import Screening.Proofs.Grammar.Size
import Screening.Proofs.Rule.Alike
import Screening.Proofs.Grammar.Twins
import Screening.Proofs.Compile.Stages
import Screening.Proofs.Compile.Limit
import Screening.Proofs.Token.Raised
import Screening.Proofs.Grammar.Gathered
import Screening.Proofs.Grammar.Strings
import Screening.Proofs.Rule.Fields
import Screening.Proofs.Grammar.Operands
import Screening.Proofs.Compile.LiteralCase
import Screening.Proofs.Rule.Stable
import Screening.Proofs.Token.CaseFolding
import Screening.Proofs.Compile.Case
import Screening.Proofs.Compile.Position
import Screening.Proofs.Token.Respaced
import Screening.Proofs.Compile.Spacing
import Screening.Proofs.Compile.Stepwise
import Screening.Proofs.Grammar.Unfinished
import Screening.Proofs.Grammar.Refused
import Screening.Proofs.Compile.Legible
import Screening.Proofs.Compile.Unknown
import Screening.Proofs.Rule.Joined
import Screening.Proofs.Grammar.Machine
import Screening.Proofs.Grammar.Following
import Screening.Proofs.Grammar.Progress
