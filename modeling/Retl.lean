import Retl.CommandLine
import Retl.Csv
import Retl.Diagnostic
import Retl.Eval.Builtins
import Retl.Eval.Interpret
import Retl.Eval.Machine
import Retl.Eval.Operators
import Retl.Expr.Analyze
import Retl.Expr.Basic
import Retl.Expr.Dump
import Retl.FileStore
import Retl.Main
import Retl.Pipeline
import Retl.Session
import Retl.Text.Blank
import Retl.Text.Decimal
import Retl.Text.Layout
import Retl.Text.Printable
import Retl.Text.Quoted
import Retl.Text.Utf8
import Retl.Tree.Basic
import Retl.Tree.Outline
import Retl.Tree.Parse
import Retl.Tree.Scan
import Retl.Types.Conformance
import Retl.Types.Ty
import Retl.Value.Basic
import Retl.Value.Builtin
import Retl.Value.Plain
import Retl.Proofs.Conformance
import Retl.Proofs.EvalLogic
import Retl.Proofs.WellTyped
import Retl.Proofs.BuiltinTyping
import Retl.Proofs.StepTyping
import Retl.Proofs.TypeSafety
import Retl.Proofs.BuiltinDomain
import Retl.Proofs.ElementTyping
import Retl.Proofs.Reporting
import Retl.Proofs.BuiltinReporting
import Retl.Proofs.ErrorReporting
import Retl.Proofs.Sessions
import Retl.Proofs.DroppedLines
import Retl.Proofs.CsvCodec
import Retl.Proofs.Utf8Codec
import Retl.Proofs.ReadAfterWrite
import Retl.Proofs.CsvRoundTrip
import Retl.Proofs.Reconformance
import Retl.Proofs.RunInvariant
import Retl.Proofs.AnalysisSteps
import Retl.Proofs.Tables
import Retl.Proofs.QuietAnalysis
import Retl.Proofs.IntBounds
import Retl.Proofs.TokenReading
import Retl.Proofs.AliasText
import Retl.Proofs.Refinement
import Retl.Proofs.StaticTypes
import Retl.Proofs.FirstMatch
import Retl.Proofs.LexicalScope
import Retl.Proofs.DictLiterals
import Retl.Proofs.SequenceAccess
import Retl.Proofs.TruncatingDivision
import Retl.Proofs.StepRuns
import Retl.Proofs.IntegerText
import Retl.Proofs.EvaluationOrder
import Retl.Proofs.StructuralEquality
import Retl.Proofs.HigherOrder
import Retl.Proofs.Foreach
import Retl.Proofs.Depth
import Retl.Proofs.TopLevel
import Retl.Proofs.ExactTypes
import Retl.Proofs.ChainAnalysis
import Retl.Proofs.NodeSearch
import Retl.Proofs.ReadingAdvances
import Retl.Proofs.OperatorPrecedence
import Retl.Proofs.SourceOrder
import Retl.Proofs.ReadingOrder
import Retl.Proofs.VisibleNames
