import Handoff.Checker.Basic
import Handoff.Checker.Message
import Handoff.Checker.Set
import Handoff.Closure.Call
import Handoff.Closure.Graph
import Handoff.CommandLine.Arguments
import Handoff.CommandLine.Discovery
import Handoff.CommandLine.Disk
import Handoff.CommandLine.FileTree
import Handoff.CommandLine.Path
import Handoff.CommandLine.Report
import Handoff.CommandLine.Run
import Handoff.Configuration.Basic
import Handoff.Configuration.Overrides
import Handoff.Error
import Handoff.Finding
import Handoff.Inspection
import Handoff.Ledger.Basic
import Handoff.Ledger.Problem
import Handoff.Ledger.Remark
import Handoff.Main
import Handoff.Name.Package
import Handoff.Name.Qualified
import Handoff.Proofs.Closure.Calls
import Handoff.Proofs.Closure.Captures
import Handoff.Proofs.Closure.Replica
import Handoff.Proofs.Closure.Unreachable
import Handoff.Proofs.CommandLine.Annotations
import Handoff.Proofs.Configuration.Acceptance
import Handoff.Proofs.Inspection.Bodiless
import Handoff.Proofs.Inspection.Comments
import Handoff.Proofs.Inspection.Extension
import Handoff.Proofs.Inspection.Literal
import Handoff.Proofs.Inspection.Marked
import Handoff.Proofs.Inspection.Reordering
import Handoff.Proofs.Inspection.Repeats
import Handoff.Proofs.Inspection.Scopes
import Handoff.Proofs.Inspection.Selection
import Handoff.Proofs.Inspection.Site
import Handoff.Proofs.Inspection.Spread
import Handoff.Proofs.Inspection.Subject
import Handoff.Proofs.Ledger.Grammar
import Handoff.Proofs.Ledger.Pruning
import Handoff.Proofs.Ledger.Suppression
import Handoff.Proofs.Name.Display
import Handoff.Proofs.Requirement.Levels
import Handoff.Proofs.Requirement.Text
import Handoff.Proofs.Resolution.Alignment
import Handoff.Proofs.Resolution.Assignments
import Handoff.Proofs.Resolution.Comments
import Handoff.Proofs.Resolution.Correspondence
import Handoff.Proofs.Resolution.Declared
import Handoff.Proofs.Resolution.Dependence
import Handoff.Proofs.Resolution.Footprint
import Handoff.Proofs.Resolution.Guards
import Handoff.Proofs.Resolution.Lexical
import Handoff.Proofs.Resolution.Lockstep
import Handoff.Proofs.Resolution.Logged
import Handoff.Proofs.Resolution.Names
import Handoff.Proofs.Resolution.Package
import Handoff.Proofs.Resolution.Parameters
import Handoff.Proofs.Resolution.Progress
import Handoff.Proofs.Resolution.Provenance
import Handoff.Proofs.Resolution.Reordering
import Handoff.Proofs.Resolution.Rounds
import Handoff.Proofs.Resolution.Scope
import Handoff.Proofs.Resolution.Visit
import Handoff.Proofs.Resolution.Writes
import Handoff.Proofs.Syntax.Alignment
import Handoff.Proofs.Syntax.Comments
import Handoff.Proofs.Syntax.Grammar.Expression
import Handoff.Proofs.Syntax.Grammar.File
import Handoff.Proofs.Syntax.Grammar.Reads
import Handoff.Proofs.Syntax.Grammar.Statement
import Handoff.Proofs.Syntax.Grammar.Type
import Handoff.Proofs.Syntax.Layout
import Handoff.Proofs.Syntax.Lexical
import Handoff.Proofs.Syntax.Likeness
import Handoff.Proofs.Syntax.Reordering
import Handoff.Proofs.Syntax.Spelling
import Handoff.Proofs.Syntax.Tree
import Handoff.Proofs.Syntax.Walk
import Handoff.Proofs.Text.Pattern
import Handoff.Proofs.Text.Pieces
import Handoff.Proofs.Verdict.Answers
import Handoff.Proofs.Verdict.Carriers
import Handoff.Proofs.Verdict.Collections
import Handoff.Proofs.Verdict.Entered
import Handoff.Proofs.Verdict.Holding
import Handoff.Proofs.Verdict.Literal
import Handoff.Proofs.Verdict.Located
import Handoff.Proofs.Verdict.Mirrors
import Handoff.Proofs.Verdict.Parametric
import Handoff.Proofs.Verdict.Placement
import Handoff.Proofs.Verdict.Reaching
import Handoff.Proofs.Verdict.Reordering
import Handoff.Proofs.Verdict.Repeats
import Handoff.Proofs.Verdict.Thresholds
import Handoff.Proofs.Verdict.Tiers
import Handoff.Proofs.Verdict.Trace
import Handoff.Requirement.Basic
import Handoff.Requirement.Outcome
import Handoff.Resolution.Basic
import Handoff.Resolution.Build
import Handoff.Resolution.Import
import Handoff.Resolution.Token
import Handoff.Settings
import Handoff.Sort
import Handoff.Spawner.Basic
import Handoff.Spawner.Match
import Handoff.Syntax.Draft
import Handoff.Syntax.Dump
import Handoff.Syntax.Grammar.Expression
import Handoff.Syntax.Grammar.File
import Handoff.Syntax.Grammar.Parser
import Handoff.Syntax.Grammar.Statement
import Handoff.Syntax.Grammar.Type
import Handoff.Syntax.Kind
import Handoff.Syntax.Node
import Handoff.Syntax.Position
import Handoff.Syntax.Token
import Handoff.Text.Alphabetic
import Handoff.Text.Blank
import Handoff.Text.CodePoints
import Handoff.Text.Identifier
import Handoff.Text.Pattern
import Handoff.Text.Split
import Handoff.TokenScope
import Handoff.Toml.Document
import Handoff.Toml.Quoted
import Handoff.Toml.Scalar
import Handoff.Toml.Value
import Handoff.TypeName
import Handoff.Verdict.Mention
import Handoff.Verdict.Precise
import Handoff.Verdict.Search
