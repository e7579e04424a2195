import TargetCode.AllowList
import TargetCode.Backend
import TargetCode.Binary64
import TargetCode.Builtin.Methods
import TargetCode.Builtin.Operations
import TargetCode.Decimal.Layout
import TargetCode.Decimal.Shortest
import TargetCode.Dialect
import TargetCode.Draft
import TargetCode.Error
import TargetCode.Event
import TargetCode.Expr.Basic
import TargetCode.Expr.Compose
import TargetCode.Expr.Handle
import TargetCode.Expr.Initial
import TargetCode.Expr.Render
import TargetCode.Invocation
import TargetCode.Literal
import TargetCode.MethodTable
import TargetCode.Operation
import TargetCode.Operator
import TargetCode.Page
import TargetCode.Precedence
import TargetCode.Proofs.Attachments
import TargetCode.Proofs.BuiltinCalls
import TargetCode.Proofs.Coercion
import TargetCode.Proofs.Concatenation
import TargetCode.Proofs.Dispatch
import TargetCode.Proofs.DocHeaders
import TargetCode.Proofs.ExpressionStatements
import TargetCode.Proofs.FirstCharacter
import TargetCode.Proofs.Grammar
import TargetCode.Proofs.HelperPaths
import TargetCode.Proofs.Hoisting
import TargetCode.Proofs.HtmlReferences
import TargetCode.Proofs.KeptStatements
import TargetCode.Proofs.LayerOrder
import TargetCode.Proofs.LiteralArguments
import TargetCode.Proofs.Literals
import TargetCode.Proofs.Overloads
import TargetCode.Proofs.Parentheses
import TargetCode.Proofs.Parser
import TargetCode.Proofs.PhysicalLines
import TargetCode.Proofs.QuotedText
import TargetCode.Proofs.Rejections
import TargetCode.Proofs.Rendering
import TargetCode.Proofs.SafeTags
import TargetCode.Proofs.StreamedEscape
import TargetCode.Proofs.StreamedLiterals
import TargetCode.Proofs.Suppression
import TargetCode.Proofs.Tokens
import TargetCode.Proofs.Traversal
import TargetCode.Proofs.WellFormedOperands
import TargetCode.Proofs.WrittenOnce
import TargetCode.Registry
import TargetCode.Settings
import TargetCode.SettingsFile
import TargetCode.Sink.Base
import TargetCode.Sink.Basic
import TargetCode.Sink.Call
import TargetCode.Sink.Device
import TargetCode.Sink.Layer
import TargetCode.Text.Bytes
import TargetCode.Text.Hidden
import TargetCode.Text.Html
import TargetCode.Text.Lines
import TargetCode.Text.Quoted
import TargetCode.Text.Shown
import TargetCode.TextTarget
import TargetCode.Toml.Document
import TargetCode.Toml.Reader
import TargetCode.Toml.Scalars
import TargetCode.Toml.Strings
import TargetCode.Toml.Table
