import DerwLang.CommandLine.FileTree
import DerwLang.Main
import DerwLang.Proofs.Accepted.Declaration
import DerwLang.Proofs.Case.Isolation
import DerwLang.Proofs.Case.Lists
import DerwLang.Proofs.Case.Naming
import DerwLang.Proofs.Case.Temporaries
import DerwLang.Proofs.Compile.Destination
import DerwLang.Proofs.Compile.Reported
import DerwLang.Proofs.ConsPattern.Agreement
import DerwLang.Proofs.Exports.Once
import DerwLang.Proofs.Format.Modes
import DerwLang.Proofs.Indexed.Declaration
import DerwLang.Proofs.Layout.Settled
import DerwLang.Proofs.Leaves.Printed
import DerwLang.Proofs.Lexing.LongestMatch
import DerwLang.Proofs.Lexing.Position
import DerwLang.Proofs.Lexing.Spaced
import DerwLang.Proofs.Lines.Below
import DerwLang.Proofs.ListPattern.Correct
import DerwLang.Proofs.Operators.ChainRead
import DerwLang.Proofs.Operators.Elm
import DerwLang.Proofs.Operators.Script
import DerwLang.Proofs.Pipes.Meaning
import DerwLang.Proofs.Quotation.Concatenation
import DerwLang.Proofs.Quotation.Kept
import DerwLang.Proofs.Reading.Annotation
import DerwLang.Proofs.Reading.Construct
import DerwLang.Proofs.Reading.PatternText
import DerwLang.Proofs.Reading.RoundTrip
import DerwLang.Proofs.Reading.Segment
import DerwLang.Proofs.Reading.Signature
import DerwLang.Proofs.Text.Hash
import DerwLang.Proofs.Text.PathName
import DerwLang.Proofs.Types.Scope
import DerwLang.Proofs.Types.Script
import DerwLang.Proofs.Typing.Chain
import DerwLang.Proofs.Typing.Definitions
import DerwLang.Proofs.Typing.Witness
import DerwLang.Proofs.Windows.Slice
