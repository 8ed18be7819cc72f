import SqlSyntax.Forest
import SqlSyntax.Forest.Walk
import SqlSyntax.Session
import SqlSyntax.Store
import SqlSyntax.Storage.ByteArena
import SqlSyntax.Storage.Exclusive
import SqlSyntax.Storage.Ratio
import SqlSyntax.Token.Cursor
import SqlSyntax.Tree.Outline
import SqlSyntax.Proofs.Trees
import SqlSyntax.Proofs.Links
import SqlSyntax.Proofs.Ownership
import SqlSyntax.Proofs.Built
import SqlSyntax.Proofs.Steps
import SqlSyntax.Proofs.Grammar.Name
import SqlSyntax.Proofs.Grammar.Expression
import SqlSyntax.Proofs.Grammar.Query
import SqlSyntax.Proofs.Grammar.Change
import SqlSyntax.Proofs.Grammar.Schema
import SqlSyntax.Proofs.Pieces
import SqlSyntax.Proofs.Tokens
import SqlSyntax.Proofs.Law
import SqlSyntax.Proofs.Sound
import SqlSyntax.Proofs.Script
import SqlSyntax.Proofs.Session
import SqlSyntax.Proofs.Violations
import SqlSyntax.Proofs.Walks
import SqlSyntax.Proofs.OneTree
import SqlSyntax.Proofs.Safety
import SqlSyntax.Proofs.Plain
import SqlSyntax.Proofs.Growth
import SqlSyntax.Proofs.Levels
import SqlSyntax.Proofs.Operands
import SqlSyntax.Proofs.Ranks
import SqlSyntax.Proofs.Runs
import SqlSyntax.Proofs.Alteration
import SqlSyntax.Proofs.Recovery
import SqlSyntax.Proofs.Twins
import SqlSyntax.Proofs.Stores.Steps
import SqlSyntax.Proofs.Stores
import SqlSyntax.Proofs.History
import SqlSyntax.Proofs.Placement
import SqlSyntax.Proofs.EntryPoints
import SqlSyntax.Proofs.Rendering
import SqlSyntax.Proofs.Selection
import SqlSyntax.Proofs.Reading
import SqlSyntax.Proofs.RoundTrip
import SqlSyntax.Proofs.Boundary
import SqlSyntax.Proofs.Boundary.Steps
import SqlSyntax.Proofs.Boundary.Name
import SqlSyntax.Proofs.Boundary.Expression
import SqlSyntax.Proofs.Boundary.Query
import SqlSyntax.Proofs.Boundary.Change
import SqlSyntax.Proofs.Boundary.Schema
import SqlSyntax.Proofs.Resumption
import SqlSyntax.Proofs.Limits
import SqlSyntax.Proofs.Habits
import SqlSyntax.Proofs.Options
import SqlSyntax.Proofs.Pairing
import SqlSyntax.Proofs.Pairing.Steps
import SqlSyntax.Proofs.Pairing.Name
import SqlSyntax.Proofs.Pairing.Expression
import SqlSyntax.Proofs.Pairing.Query
import SqlSyntax.Proofs.Pairing.Change
import SqlSyntax.Proofs.Pairing.Schema
import SqlSyntax.Proofs.Pairing.Same
import SqlSyntax.Proofs.Strict
import SqlSyntax.Proofs.Parentheses
import SqlSyntax.Proofs.Parentheses.Rules
import SqlSyntax.Proofs.Compact
import SqlSyntax.Proofs.Tiling
import SqlSyntax.Proofs.Extensions
import SqlSyntax.Proofs.Accounting
import SqlSyntax.Proofs.Casing
import SqlSyntax.Proofs.Casing.Rules
import SqlSyntax.Proofs.Casing.Runs
import SqlSyntax.Proofs.Pairing.Parse
import SqlSyntax.Proofs.Relabelling
import SqlSyntax.Proofs.Spacing.Lexeme
import SqlSyntax.Proofs.Spacing
import SqlSyntax.Proofs.Spacing.Runs
import SqlSyntax.Proofs.Positions
import SqlSyntax.Proofs.Quoting
import SqlSyntax.Proofs.Texts
import SqlSyntax.Proofs.Fidelity
import SqlSyntax.Proofs.Children.Links
import SqlSyntax.Proofs.Children
import SqlSyntax.Proofs.Children.Strays
import SqlSyntax.Proofs.Refusals
import SqlSyntax.Proofs.Memory.Space
import SqlSyntax.Proofs.Memory.Bytes
import SqlSyntax.Proofs.Memory
import SqlSyntax.Proofs.Memory.Refusal
import SqlSyntax.Proofs.Memory.Replay
import SqlSyntax.Proofs.Memory.Sizes
import SqlSyntax.Proofs.Memory.Copies
import SqlSyntax.Proofs.Slots.Places
import SqlSyntax.Proofs.Slots
import SqlSyntax.Proofs.Contents.Places
import SqlSyntax.Proofs.Contents.Answers
import SqlSyntax.Proofs.Contents.Expression
import SqlSyntax.Proofs.Contents.Query
import SqlSyntax.Proofs.Contents.Statement
import SqlSyntax.Proofs.Contents.Schema
import SqlSyntax.Proofs.Contents
import SqlSyntax.Proofs.Layout.Laid
import SqlSyntax.Proofs.Layout.Stands
import SqlSyntax.Proofs.Layout.Rules
import SqlSyntax.Proofs.Layout.Name
import SqlSyntax.Proofs.Layout.Expression
import SqlSyntax.Proofs.Layout.Query
import SqlSyntax.Proofs.Layout.Change
import SqlSyntax.Proofs.Layout.Schema
import SqlSyntax.Proofs.Layout.Statement
import SqlSyntax.Proofs.Layout
import SqlSyntax.Proofs.Layout.Nesting
import SqlSyntax.Proofs.Layout.Edges
import SqlSyntax.Proofs.Layout.Stars
import SqlSyntax.Proofs.Layout.Reach
import SqlSyntax.Proofs.Layout.Contexts
import SqlSyntax.Proofs.Spelling
import SqlSyntax.Proofs.TypeNames
import SqlSyntax.Proofs.Erasure
import SqlSyntax.Proofs.Defaults
import SqlSyntax.Proofs.Sequel.Steps
import SqlSyntax.Proofs.Sequel.Name
import SqlSyntax.Proofs.Sequel.Expression
import SqlSyntax.Proofs.Sequel.Query
import SqlSyntax.Proofs.Sequel
import SqlSyntax.Proofs.SortKeys
import SqlSyntax.Proofs.Negation
import SqlSyntax.Proofs.Attempts
import SqlSyntax.Proofs.Numbering
import SqlSyntax.Proofs.Checks
import SqlSyntax.Proofs.Widths
import SqlSyntax.Proofs.Rows
import SqlSyntax.Proofs.Depth.Steps
import SqlSyntax.Proofs.Depth.Expression
import SqlSyntax.Proofs.Depth.Query
import SqlSyntax.Proofs.Depth.Statement
import SqlSyntax.Proofs.Depth.Loops
import SqlSyntax.Proofs.Depth
import SqlSyntax.Proofs.Planting
import SqlSyntax.Proofs.Bearing.Kinds
import SqlSyntax.Proofs.Bearing.Steps
import SqlSyntax.Proofs.Bearing.Expression
import SqlSyntax.Proofs.Bearing.Query
import SqlSyntax.Proofs.Bearing.Change
import SqlSyntax.Proofs.Bearing.Statement
import SqlSyntax.Proofs.Ways
import SqlSyntax.Proofs.Aggregates
import SqlSyntax.Proofs.Insertion
import SqlSyntax.Proofs.Leniency
import SqlSyntax.Proofs.Names
import SqlSyntax.Proofs.Below
import SqlSyntax.Proofs.Preorder
import SqlSyntax.Proofs.Outline
import SqlSyntax.Proofs.Ancestors
import SqlSyntax.Proofs.Arity.Steps
import SqlSyntax.Proofs.Arity.Expression
import SqlSyntax.Proofs.Arity.Query
import SqlSyntax.Proofs.Arity.Statement
import SqlSyntax.Proofs.Shape
