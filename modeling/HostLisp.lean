import HostLisp.Arity
import HostLisp.Builtin
import HostLisp.Closure
import HostLisp.Decimal.Digits
import HostLisp.Decimal.Layout
import HostLisp.Decimal.Reading
import HostLisp.Decimal.Shortest
import HostLisp.Environment
import HostLisp.Error
import HostLisp.Eval
import HostLisp.Eval.Arithmetic
import HostLisp.Eval.Form
import HostLisp.Eval.Primitive
import HostLisp.Global
import HostLisp.Host
import HostLisp.Host.Parameter
import HostLisp.Host.Sample
import HostLisp.Machine
import HostLisp.Parsing.Combinators
import HostLisp.Parsing.Input
import HostLisp.Parsing.Lexeme
import HostLisp.Reader
import HostLisp.Reader.Annotation
import HostLisp.Reader.Error
import HostLisp.Reader.Literal
import HostLisp.Reader.Node
import HostLisp.Reader.Token
import HostLisp.Signature
import HostLisp.Text.Alphanumeric
import HostLisp.Text.Blank
import HostLisp.Text.CharClass
import HostLisp.Text.Escaped
import HostLisp.Text.Graphic
import HostLisp.Text.Quoted
import HostLisp.Time.Calendar
import HostLisp.Time.Duration
import HostLisp.Time.DurationText
import HostLisp.Time.Instant
import HostLisp.Time.Timestamp
import HostLisp.Toolkit
import HostLisp.Toolkit.Time
import HostLisp.Ty
import HostLisp.Value
import HostLisp.Value.Admission
import HostLisp.Value.Inspection
import HostLisp.Value.Printer
import HostLisp.Proofs.Arguments.Binding
import HostLisp.Proofs.Arguments.Matching
import HostLisp.Proofs.Arithmetic.Exact
import HostLisp.Proofs.Capture.Free
import HostLisp.Proofs.Capture.Walk
import HostLisp.Proofs.Continuation.Completion
import HostLisp.Proofs.Continuation.Line
import HostLisp.Proofs.Continuation.Literal
import HostLisp.Proofs.Continuation.Node
import HostLisp.Proofs.Continuation.Token
import HostLisp.Proofs.Evaluation.Activation
import HostLisp.Proofs.Evaluation.Balance
import HostLisp.Proofs.Evaluation.Balanced
import HostLisp.Proofs.Evaluation.Builtins
import HostLisp.Proofs.Evaluation.Capture
import HostLisp.Proofs.Evaluation.Keeping
import HostLisp.Proofs.Evaluation.Late
import HostLisp.Proofs.Evaluation.Mirror
import HostLisp.Proofs.Evaluation.Mirrored
import HostLisp.Proofs.Evaluation.MirroredEval
import HostLisp.Proofs.Evaluation.Operations
import HostLisp.Proofs.Evaluation.Recursion
import HostLisp.Proofs.Evaluation.Repertoire
import HostLisp.Proofs.Evaluation.Room
import HostLisp.Proofs.Evaluation.Scope
import HostLisp.Proofs.Evaluation.Scoped
import HostLisp.Proofs.Evaluation.ScopedEval
import HostLisp.Proofs.Evaluation.Simulation
import HostLisp.Proofs.Evaluation.Termination
import HostLisp.Proofs.Grammar.Atom
import HostLisp.Proofs.Grammar.Extension
import HostLisp.Proofs.Grammar.Literal
import HostLisp.Proofs.Grammar.Node
import HostLisp.Proofs.Grammar.Program
import HostLisp.Proofs.Grammar.Stepwise
import HostLisp.Proofs.Grammar.Syntax
import HostLisp.Proofs.Grammar.Type
import HostLisp.Proofs.Parsing.Outcome
import HostLisp.Proofs.Parsing.Progress
import HostLisp.Proofs.Reading.Annotation
import HostLisp.Proofs.Reading.Depth
import HostLisp.Proofs.Reading.Layout
import HostLisp.Proofs.Reading.Limit
import HostLisp.Proofs.Reading.Literal
import HostLisp.Proofs.Reading.Node
import HostLisp.Proofs.Reading.Quotation
import HostLisp.Proofs.Reading.RoundTrip
import HostLisp.Proofs.Reading.Token
import HostLisp.Proofs.Order.Comparators
import HostLisp.Proofs.Order.Comparison
import HostLisp.Proofs.Order.Computation
import HostLisp.Proofs.Order.Derived
import HostLisp.Proofs.Order.Float
import HostLisp.Proofs.Order.Strict
import HostLisp.Proofs.Order.ThreeWay
import HostLisp.Proofs.Store.Command
import HostLisp.Proofs.Store.Discipline
import HostLisp.Proofs.Store.Member
import HostLisp.Proofs.Store.Ownership
import HostLisp.Proofs.Store.Reach
import HostLisp.Proofs.Store.Step
import HostLisp.Proofs.Store.Tracking
import HostLisp.Proofs.Duration.Amount
import HostLisp.Proofs.Duration.Fraction
import HostLisp.Proofs.Timestamp.Calendar
import HostLisp.Proofs.Timestamp.Grammar
import HostLisp.Proofs.Timestamp.Exact
import HostLisp.Proofs.Order.Equality
import HostLisp.Proofs.Arguments.Operation
import HostLisp.Proofs.Grammar.Integer
import HostLisp.Proofs.Store.Listing
import HostLisp.Proofs.Parsing.Repetition
