import SchemaDelta.Analysis.Analyzer
import SchemaDelta.Analysis.Classification
import SchemaDelta.Analysis.Comparison
import SchemaDelta.Analysis.Finding
import SchemaDelta.Assignment.Bound
import SchemaDelta.Assignment.Cost
import SchemaDelta.Assignment.Ledger
import SchemaDelta.Assignment.Plan
import SchemaDelta.Assignment.Pool
import SchemaDelta.Assignment.Problem
import SchemaDelta.Assignment.Search
import SchemaDelta.Assignment.Sharing
import SchemaDelta.Assignment.Tally
import SchemaDelta.Assignment.Walk
import SchemaDelta.Catalog
import SchemaDelta.Change.Basic
import SchemaDelta.Change.Codec
import SchemaDelta.Change.Document
import SchemaDelta.Config
import SchemaDelta.Edit.Cancellation
import SchemaDelta.Edit.Edited
import SchemaDelta.Edit.Matching
import SchemaDelta.Edit.Operation
import SchemaDelta.Edit.Realization
import SchemaDelta.Edit.Schedule
import SchemaDelta.Edit.Script
import SchemaDelta.Edit.Unanchored
import SchemaDelta.Graph.Basic
import SchemaDelta.Graph.Build
import SchemaDelta.Graph.Builder
import SchemaDelta.Graph.Drawing
import SchemaDelta.Graph.Drawing.Reader
import SchemaDelta.Graph.Element
import SchemaDelta.Graph.Index
import SchemaDelta.Graph.Kind
import SchemaDelta.Graph.Outline
import SchemaDelta.Graph.Properties
import SchemaDelta.Graph.Relation
import SchemaDelta.Ordering
import SchemaDelta.Proofs.Analysis.Analyzer
import SchemaDelta.Proofs.Analysis.Containers
import SchemaDelta.Proofs.Analysis.Definitions
import SchemaDelta.Proofs.Analysis.Events
import SchemaDelta.Proofs.Analysis.Failures
import SchemaDelta.Proofs.Analysis.Gathering
import SchemaDelta.Proofs.Analysis.Interfaces
import SchemaDelta.Proofs.Analysis.Interiors
import SchemaDelta.Proofs.Analysis.Nesting
import SchemaDelta.Proofs.Analysis.Options
import SchemaDelta.Proofs.Analysis.Sameness
import SchemaDelta.Proofs.Analysis.Telling
import SchemaDelta.Proofs.Analysis.Types
import SchemaDelta.Proofs.Assignment.Admissible
import SchemaDelta.Proofs.Assignment.Choices
import SchemaDelta.Proofs.Assignment.Conduct
import SchemaDelta.Proofs.Assignment.Exactness
import SchemaDelta.Proofs.Assignment.InPlace
import SchemaDelta.Proofs.Assignment.Labels
import SchemaDelta.Proofs.Assignment.Ledgers
import SchemaDelta.Proofs.Assignment.Optimum
import SchemaDelta.Proofs.Assignment.Parts
import SchemaDelta.Proofs.Assignment.Progress
import SchemaDelta.Proofs.Assignment.Relabelling
import SchemaDelta.Proofs.Assignment.Schedules
import SchemaDelta.Proofs.Assignment.Sequence
import SchemaDelta.Proofs.Assignment.Shares
import SchemaDelta.Proofs.Assignment.Standing
import SchemaDelta.Proofs.Assignment.Tallies
import SchemaDelta.Proofs.Assignment.Ties
import SchemaDelta.Proofs.Assignment.Walks
import SchemaDelta.Proofs.Change.Spelling
import SchemaDelta.Proofs.Edit.Accounts
import SchemaDelta.Proofs.Edit.Agreement
import SchemaDelta.Proofs.Edit.Budgets
import SchemaDelta.Proofs.Edit.Bundles
import SchemaDelta.Proofs.Edit.Cancellations
import SchemaDelta.Proofs.Edit.Choices
import SchemaDelta.Proofs.Edit.Common
import SchemaDelta.Proofs.Edit.Decisions
import SchemaDelta.Proofs.Edit.Edited
import SchemaDelta.Proofs.Edit.Exchange
import SchemaDelta.Proofs.Edit.Insertions
import SchemaDelta.Proofs.Edit.Leftover
import SchemaDelta.Proofs.Edit.Length
import SchemaDelta.Proofs.Edit.Matchings
import SchemaDelta.Proofs.Edit.Ordered
import SchemaDelta.Proofs.Edit.Owners
import SchemaDelta.Proofs.Edit.Parallels
import SchemaDelta.Proofs.Edit.Realization
import SchemaDelta.Proofs.Edit.Reversal
import SchemaDelta.Proofs.Edit.Roles
import SchemaDelta.Proofs.Edit.Sameness
import SchemaDelta.Proofs.Edit.Savings
import SchemaDelta.Proofs.Edit.Schedules
import SchemaDelta.Proofs.Edit.Settlement
import SchemaDelta.Proofs.Edit.Spending
import SchemaDelta.Proofs.Edit.Transformation
import SchemaDelta.Proofs.Edit.Unsearched
import SchemaDelta.Proofs.Graph.Ancestors
import SchemaDelta.Proofs.Graph.Builder
import SchemaDelta.Proofs.Graph.Built
import SchemaDelta.Proofs.Graph.Circles
import SchemaDelta.Proofs.Graph.Depiction
import SchemaDelta.Proofs.Graph.Drawings
import SchemaDelta.Proofs.Graph.Entries
import SchemaDelta.Proofs.Graph.Indices
import SchemaDelta.Proofs.Graph.Inventory
import SchemaDelta.Proofs.Graph.Mentions
import SchemaDelta.Proofs.Graph.Paths
import SchemaDelta.Proofs.Graph.Places
import SchemaDelta.Proofs.Graph.References
import SchemaDelta.Proofs.Graph.Subjects
import SchemaDelta.Proofs.Graph.Types
import SchemaDelta.Proofs.Growth.Declarations
import SchemaDelta.Proofs.Growth.Graphs
import SchemaDelta.Proofs.Growth.Reports
import SchemaDelta.Proofs.Growth.Scripts
import SchemaDelta.Proofs.Lists
import SchemaDelta.Proofs.Ordering
import SchemaDelta.Proofs.Renaming.Costs
import SchemaDelta.Proofs.Renaming.Declarations
import SchemaDelta.Proofs.Renaming.Graphs
import SchemaDelta.Proofs.Renaming.Labels
import SchemaDelta.Proofs.Renaming.Names
import SchemaDelta.Proofs.Renaming.Outlines
import SchemaDelta.Proofs.Renaming.Reports
import SchemaDelta.Proofs.Renaming.Scripts
import SchemaDelta.Proofs.Renaming.Searches
import SchemaDelta.Proofs.Reordering.Declarations
import SchemaDelta.Proofs.Reordering.Graphs
import SchemaDelta.Proofs.Reordering.Matchings
import SchemaDelta.Proofs.Reordering.Numbers
import SchemaDelta.Proofs.Reordering.Problems
import SchemaDelta.Proofs.Reordering.Reports
import SchemaDelta.Proofs.Reordering.Scripts
import SchemaDelta.Proofs.Reordering.Searches
import SchemaDelta.Proofs.Reordering.Steps
import SchemaDelta.Proofs.Schema.Blocks
import SchemaDelta.Proofs.Schema.References
import SchemaDelta.Proofs.Sums
import SchemaDelta.Report
import SchemaDelta.Schema.Block
import SchemaDelta.Schema.Definition
import SchemaDelta.Schema.TypeRef
import SchemaDelta.Schema.TypeSystem
import SchemaDelta.Sdl.Document
import SchemaDelta.Sdl.Quoted
import SchemaDelta.Sdl.Reader
import SchemaDelta.Sdl.Token
import SchemaDelta.Text.Blank
import SchemaDelta.Text.Bytes
import SchemaDelta.Time
import SchemaDelta.Total
