import SmallScheme.Chain.Register
import SmallScheme.Interpreter.Session
import SmallScheme.Main
import SmallScheme.Proofs.Environment.Invariant
import SmallScheme.Proofs.Evaluation.Calls
import SmallScheme.Proofs.Evaluation.Definitions
import SmallScheme.Proofs.Evaluation.Limit
import SmallScheme.Proofs.Evaluation.Models
import SmallScheme.Proofs.Number.Value
import SmallScheme.Proofs.Reader.RoundTrip
import SmallScheme.Proofs.Evaluation.Frames
import SmallScheme.Proofs.Fault
import SmallScheme.Proofs.Operator.Primitive
import SmallScheme.Proofs.Environment.Content
import SmallScheme.Proofs.Evaluation.Binders
import SmallScheme.Proofs.Reader.Increment
import SmallScheme.Proofs.Interpreter.Content
import SmallScheme.Proofs.Interpreter.Report
import SmallScheme.Proofs.Interpreter.Lines
import SmallScheme.Proofs.Evaluation.Unrelated
import SmallScheme.Proofs.Evaluation.Parameters
import SmallScheme.Proofs.Interpreter.ReadBack
import SmallScheme.Proofs.Number.Division
import SmallScheme.Proofs.Operator.Pair
import SmallScheme.Proofs.Evaluation.Operators
import SmallScheme.Proofs.Evaluation.Writing
import SmallScheme.Proofs.Evaluation.Mapping
import SmallScheme.Proofs.Evaluation.Arguments
import SmallScheme.Proofs.Operator.Total
import SmallScheme.Proofs.Number.Reading
import SmallScheme.Proofs.Interpreter.Keys
import SmallScheme.Proofs.Interpreter.Listing
import SmallScheme.Proofs.Operator.Comparison
import SmallScheme.Proofs.Reader.Restriction
import SmallScheme.Proofs.Reader.Single
import SmallScheme.Proofs.Reader.Excerpt
import SmallScheme.Proofs.Reader.Semicolon
import SmallScheme.Proofs.Prompt.Session
import SmallScheme.Proofs.Interpreter.Calling
import SmallScheme.Proofs.Evaluation.Connectives
import SmallScheme.Proofs.Evaluation.Height
import SmallScheme.Proofs.Interpreter.Scale
import SmallScheme.Proofs.Chain.Register
