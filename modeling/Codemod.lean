import Codemod.Blob.Artifact
import Codemod.Blob.Rules
import Codemod.Blob.Wire
import Codemod.Command.Arguments
import Codemod.Command.Run
import Codemod.Comment
import Codemod.Config
import Codemod.Decimal.Double
import Codemod.Decimal.Shortest
import Codemod.Dict
import Codemod.Edit.Basic
import Codemod.Edit.Script
import Codemod.Files.Access
import Codemod.Files.Tree
import Codemod.Finding
import Codemod.Identity
import Codemod.Interchange.Basic
import Codemod.Interchange.Finding
import Codemod.Interchange.Template
import Codemod.Interchange.Tree
import Codemod.Json.Read
import Codemod.Json.Value
import Codemod.Json.Write
import Codemod.Main
import Codemod.Migration.CallSite
import Codemod.Migration.Declaration
import Codemod.Migration.Pair
import Codemod.Name
import Codemod.Proofs.Blob.Artifact
import Codemod.Proofs.Blob.Rules
import Codemod.Proofs.Blob.Wire
import Codemod.Proofs.Comment
import Codemod.Proofs.Comment.Lexer
import Codemod.Proofs.Comment.Search
import Codemod.Proofs.Dict
import Codemod.Proofs.Edit.Application
import Codemod.Proofs.Edit.Choice
import Codemod.Proofs.Edit.Compatibility
import Codemod.Proofs.Edit.Composition
import Codemod.Proofs.Edit.Selection
import Codemod.Proofs.Edit.Turning
import Codemod.Proofs.Files.Directory
import Codemod.Proofs.Identity
import Codemod.Proofs.Migration.Alignment
import Codemod.Proofs.Migration.Arrangement
import Codemod.Proofs.Migration.CallSite
import Codemod.Proofs.Migration.Chain
import Codemod.Proofs.Migration.Conversion
import Codemod.Proofs.Migration.Counterpart
import Codemod.Proofs.Migration.Pair
import Codemod.Proofs.Migration.RoundTrip
import Codemod.Proofs.Outcome
import Codemod.Proofs.Scan.Accounting
import Codemod.Proofs.Scan.Candidates
import Codemod.Proofs.Scan.Counting
import Codemod.Proofs.Scan.Extent
import Codemod.Proofs.Scan.Failures
import Codemod.Proofs.Scan.Grouping
import Codemod.Proofs.Scan.PlainPass
import Codemod.Proofs.Scan.Reports
import Codemod.Proofs.Scan.Rewriting
import Codemod.Proofs.Scan.Uncommented
import Codemod.Proofs.Store.Builder
import Codemod.Proofs.Store.Groups
import Codemod.Proofs.Store.Persistence
import Codemod.Proofs.Store.RuleSet
import Codemod.Proofs.Store.Transcript
import Codemod.Proofs.Template.Agreement
import Codemod.Proofs.Template.Canonical
import Codemod.Proofs.Template.Capture
import Codemod.Proofs.Template.Demands
import Codemod.Proofs.Template.Frames
import Codemod.Proofs.Template.Grouping
import Codemod.Proofs.Template.Imports
import Codemod.Proofs.Template.InstanceRelation
import Codemod.Proofs.Template.Instantiation
import Codemod.Proofs.Template.Meeting
import Codemod.Proofs.Template.Negation
import Codemod.Proofs.Template.Origin
import Codemod.Proofs.Template.Precedence
import Codemod.Proofs.Template.Rendering
import Codemod.Proofs.Template.Restoration
import Codemod.Proofs.Template.Scoping
import Codemod.Proofs.Template.Standing
import Codemod.Proofs.Template.TypeSoundness
import Codemod.Proofs.Template.WellScoped
import Codemod.Proofs.Template.Windows
import Codemod.Proofs.Tree.Bare
import Codemod.Proofs.Tree.Exchange
import Codemod.Proofs.Tree.Faithfulness
import Codemod.Proofs.Tree.Grouping
import Codemod.Proofs.Tree.Literal
import Codemod.Proofs.Tree.Nesting
import Codemod.Proofs.Tree.Operands
import Codemod.Proofs.Tree.Pieces
import Codemod.Proofs.Tree.Quiet
import Codemod.Proofs.Tree.Rewriting
import Codemod.Proofs.Tree.Shape
import Codemod.Proofs.Tree.Spacing
import Codemod.Proofs.Tree.Standing
import Codemod.Proofs.Types.Ascent
import Codemod.Proofs.Types.Bounds
import Codemod.Proofs.Types.Equivalence
import Codemod.Proofs.Types.Inference
import Codemod.Proofs.Types.Instances
import Codemod.Proofs.Types.Nameless
import Codemod.Proofs.Types.RawTypes
import Codemod.Proofs.Types.Renaming
import Codemod.Proofs.Types.Subtyping
import Codemod.Proofs.Types.Views
import Codemod.Rule
import Codemod.Scan.Basic
import Codemod.Scan.Log
import Codemod.Scan.Scanner
import Codemod.Scan.Visits
import Codemod.Store.Builder
import Codemod.Store.Loader
import Codemod.Store.Persist
import Codemod.Store.RuleSet
import Codemod.Template.Basic
import Codemod.Template.Bindings
import Codemod.Template.Declaration
import Codemod.Template.Matching
import Codemod.Template.Rendering
import Codemod.Text.Offset
import Codemod.Text.Printable
import Codemod.Text.Uppercase
import Codemod.Text.Utf8
import Codemod.Tree.Annotation
import Codemod.Tree.Basic
import Codemod.Tree.Declared
import Codemod.Tree.Fresh
import Codemod.Tree.Layout
import Codemod.Tree.Literal
import Codemod.Tree.Shape
import Codemod.Tree.Span
import Codemod.Tree.Walk
import Codemod.Types.Basic
import Codemod.Types.Hierarchy
import Codemod.Types.Inference
import Codemod.Types.Oracle
