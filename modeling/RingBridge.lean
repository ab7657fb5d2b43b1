import RingBridge.Command.Session
import RingBridge.Main
import RingBridge.Source.Request
import RingBridge.Proofs.Spelling.Pieces
import RingBridge.Proofs.Spelling.Nested
import RingBridge.Proofs.Spelling.Head
import RingBridge.Proofs.Shape.TypeExpr
import RingBridge.Proofs.Spelling.Primitive
import RingBridge.Proofs.Shape.Brackets
import RingBridge.Proofs.Shape.Form
import RingBridge.Proofs.Shape.Grammar
import RingBridge.Proofs.Source.Balanced
import RingBridge.Proofs.Source.Reads
import RingBridge.Proofs.Source.TypeTokens
import RingBridge.Proofs.Source.Render
import RingBridge.Proofs.Source.Params
import RingBridge.Proofs.Source.Items
import RingBridge.Proofs.Source.File
import RingBridge.Proofs.Source.Reported
import RingBridge.Proofs.Source.Spans
import RingBridge.Proofs.Code.Along
import RingBridge.Proofs.Binding.Items
import RingBridge.Proofs.Binding.Arguments
import RingBridge.Proofs.Answer.Guarded
import RingBridge.Proofs.Wrapper.Paths
import RingBridge.Proofs.Module.Exports
import RingBridge.Proofs.Module.Guarded
import RingBridge.Proofs.Code.Names
import RingBridge.Proofs.Answer.Typed
import RingBridge.Proofs.Wrapper.Locals
import RingBridge.Proofs.Module.Tagged
import RingBridge.Proofs.Module.Arity
import RingBridge.Proofs.Module.Reclaims
import RingBridge.Proofs.Document.Reports
import RingBridge.Proofs.Module.Nested
import RingBridge.Proofs.Module.Order
import RingBridge.Proofs.Module.Index
import RingBridge.Proofs.Module.Operations
import RingBridge.Proofs.Shape.Owner
import RingBridge.Proofs.Module.Retyped
import RingBridge.Proofs.Module.Owner
import RingBridge.Proofs.Module.Unresolved
import RingBridge.Proofs.Document.Written
import RingBridge.Proofs.Module.Kinds
import RingBridge.Proofs.Module.Hygiene
import RingBridge.Proofs.Module.Identifiers
import RingBridge.Proofs.Document.Reloaded
import RingBridge.Proofs.Source.Extension
import RingBridge.Proofs.Source.Ranges
import RingBridge.Proofs.Module.Ignored
import RingBridge.Proofs.Binding.Tested
import RingBridge.Proofs.Answer.Filled
import RingBridge.Proofs.Answer.Answered
import RingBridge.Proofs.Command.Unchanged
import RingBridge.Proofs.Answer.Distinct
import RingBridge.Proofs.Binding.Accepted
import RingBridge.Proofs.Binding.Boxed
import RingBridge.Proofs.Binding.Lent
import RingBridge.Proofs.Module.Accessors
import RingBridge.Proofs.Module.Handled
import RingBridge.Proofs.Source.Positions
import RingBridge.Proofs.Source.Below
import RingBridge.Proofs.Source.Starts
import RingBridge.Proofs.Source.Again
import RingBridge.Proofs.Source.Spaced
import RingBridge.Proofs.Source.Matching
import RingBridge.Proofs.Source.Broken
import RingBridge.Proofs.Source.Located
import RingBridge.Proofs.Shape.Spacing
import RingBridge.Proofs.Shape.Slices
import RingBridge.Proofs.Source.Gaps
import RingBridge.Proofs.Source.Lexemes
import RingBridge.Proofs.Source.Spelled
import RingBridge.Proofs.Source.Patterns
import RingBridge.Proofs.Layout.Spliced
import RingBridge.Proofs.Module.Contents
import RingBridge.Proofs.Spelling.Arguments
import RingBridge.Proofs.Binding.Distinct
import RingBridge.Proofs.Module.Quoted
import RingBridge.Proofs.Handle.Runs
