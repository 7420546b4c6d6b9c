import Rowwise.Eval.Expression
import Rowwise.Proofs.Cancellation.Heeding
import Rowwise.Proofs.Comparing.Orders
import Rowwise.Proofs.Constancy.Folding
import Rowwise.Proofs.Constancy.HostCalls
import Rowwise.Proofs.Evaluation.Reading
import Rowwise.Proofs.Evaluation.Sequence
import Rowwise.Proofs.Missing.Calls
import Rowwise.Proofs.Calendar.ClockSums
import Rowwise.Proofs.Calendar.ClockText
import Rowwise.Proofs.Calendar.Counting
import Rowwise.Proofs.Calendar.Editing
import Rowwise.Proofs.Calendar.IsoSpellings
import Rowwise.Proofs.Calendar.LocalRange
import Rowwise.Proofs.Calendar.Milliseconds
import Rowwise.Proofs.Characters.Positions
import Rowwise.Proofs.Numbers.Binomial
import Rowwise.Proofs.Numbers.Bits
import Rowwise.Proofs.Numbers.HalfUp
import Rowwise.Proofs.Numbers.Literals
import Rowwise.Proofs.Numbers.Packing
import Rowwise.Proofs.Numbers.Rounding
import Rowwise.Proofs.Numbers.Values
import Rowwise.Proofs.Numbers.Whole
import Rowwise.Proofs.Numbers.WholeText
import Rowwise.Proofs.Parsing.Completeness
import Rowwise.Proofs.Parsing.NestingBound
import Rowwise.Proofs.Parsing.NestingLimit
import Rowwise.Proofs.Parsing.Quoting
import Rowwise.Proofs.Parsing.Refusals
import Rowwise.Proofs.Parsing.Soundness
import Rowwise.Proofs.Parsing.SpelledChain
import Rowwise.Proofs.Parsing.Words
import Rowwise.Proofs.Patterns.Enclosing
import Rowwise.Proofs.Repetition.Histories
import Rowwise.Proofs.Repetition.RowTexts
import Rowwise.Proofs.Reports.Spans
import Rowwise.Proofs.Tables.Cursor
import Rowwise.Proofs.Tables.Listings
import Rowwise.Proofs.Tables.Readers
import Rowwise.Proofs.Tables.Retyping
import Rowwise.Proofs.Tables.Schemas
import Rowwise.Proofs.Texts.Alike
import Rowwise.Proofs.Texts.Chains
import Rowwise.Proofs.Texts.Limit
import Rowwise.Proofs.Texts.Places
import Rowwise.Proofs.Texts.SelfCalls
import Rowwise.Proofs.Typing.Integrality
import Rowwise.Proofs.Typing.Soundness
import Rowwise.Report.FaultReport
