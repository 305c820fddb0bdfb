import Marmoset.Builtin
import Marmoset.CallDepth
import Marmoset.CommandLine.Arguments
import Marmoset.CommandLine.Dialogue
import Marmoset.CommandLine.Run
import Marmoset.Effect
import Marmoset.Eval
import Marmoset.Integer
import Marmoset.Main
import Marmoset.Program.Basic
import Marmoset.Program.Operator
import Marmoset.Program.Outline
import Marmoset.Program.ParseError
import Marmoset.Program.Parsed
import Marmoset.Program.Parser
import Marmoset.Program.Printer
import Marmoset.Proofs.Grammar
import Marmoset.Proofs.ParserSteps
import Marmoset.Session
import Marmoset.Store
import Marmoset.Table
import Marmoset.Text.Outline
import Marmoset.Text.Quoted
import Marmoset.Text.Trim
import Marmoset.Text.Unprinted
import Marmoset.Token
import Marmoset.Token.Lexeme
import Marmoset.Token.Stream
import Marmoset.Value.Basic
import Marmoset.Value.Operation
import Marmoset.Value.Outline
import Marmoset.Value.RuntimeError
import Marmoset.Proofs.ParserSound
import Marmoset.Proofs.ParserComplete
import Marmoset.Proofs.Machine
import Marmoset.Proofs.Termination
import Marmoset.Proofs.ValueParts
import Marmoset.Proofs.ReturnContainment
import Marmoset.Proofs.ControlFlow
import Marmoset.Proofs.ReturnFaithful
import Marmoset.Proofs.Frames
import Marmoset.Proofs.CallBalance
import Marmoset.Proofs.ErrorPosition
import Marmoset.Proofs.SourceText
import Marmoset.Proofs.WritableTrees
import Marmoset.Proofs.TwoRuns
import Marmoset.Proofs.Headroom
import Marmoset.Proofs.TwoReadings
import Marmoset.Proofs.UnreadNames
import Marmoset.Proofs.Synchronisation
import Marmoset.Proofs.LineBreaks
import Marmoset.Proofs.Continuation
import Marmoset.Proofs.ErrorCount
import Marmoset.Proofs.Cursor
import Marmoset.Proofs.LongestMatch
import Marmoset.Proofs.JoinedText
import Marmoset.Proofs.InspectionText
import Marmoset.Proofs.ErrorContainment
import Marmoset.Proofs.TokenLines
import Marmoset.Proofs.ErrorOrder
import Marmoset.Proofs.DialogueSession
import Marmoset.Proofs.FunctionIdentity
import Marmoset.Proofs.HashLiteral
import Marmoset.Proofs.Equality
import Marmoset.Proofs.RenderedText
import Marmoset.Proofs.Dropped
import Marmoset.Proofs.Braces
import Marmoset.Proofs.MatchingBrace
import Marmoset.Proofs.Lookup
import Marmoset.Proofs.EvalRules
import Marmoset.Proofs.RecursionLimit
import Marmoset.Proofs.MapFunction
import Marmoset.Proofs.BodyEnd
import Marmoset.Proofs.ScopeHistory
import Marmoset.Proofs.IntegerRing
import Marmoset.Proofs.ErrorMessage
import Marmoset.Proofs.TokenEquality
import Marmoset.Proofs.Layout
