import FlowCheck.Source.Pos
import FlowCheck.Source.Symbol
import FlowCheck.Text.Quoted
import FlowCheck.Token.Basic
import FlowCheck.Token.Lexer
import FlowCheck.Tree.Node
import FlowCheck.Tree.Numbering
import FlowCheck.Tree.Dump
import FlowCheck.Tree.Document
import FlowCheck.Parse.File
import FlowCheck.Scope.Basic
import FlowCheck.Resolve.File
import FlowCheck.Diagnostic.Bag
import FlowCheck.Flow.Assignment
import FlowCheck.Text.Yaml.Document
import FlowCheck.Flow.Build
import FlowCheck.Flow.Pipeline
import FlowCheck.Diagnostic.Report
import FlowCheck.Check.Basic
import FlowCheck.Settings.Basic
import FlowCheck.Settings.File
import FlowCheck.Command.Run
import FlowCheck.Main
import FlowCheck.Proofs.Graph.Basic
import FlowCheck.Proofs.Graph.Path
import FlowCheck.Proofs.Dominance.Search
import FlowCheck.Proofs.Dominance.Table
import FlowCheck.Proofs.Dominance.Tree
import FlowCheck.Proofs.Dominance.Rounds
import FlowCheck.Proofs.Dominance.Frontier
import FlowCheck.Proofs.Assignment.Placement
import FlowCheck.Proofs.Assignment.Phi
import FlowCheck.Proofs.Assignment.Site
import FlowCheck.Proofs.Assignment.Reaching
import FlowCheck.Proofs.Assignment.Renaming
import FlowCheck.Proofs.Assignment.Exactness
import FlowCheck.Proofs.Assignment.Resolution
import FlowCheck.Proofs.Assignment.Flags
import FlowCheck.Proofs.Assignment.Recursion
import FlowCheck.Proofs.Execution.Behavior
import FlowCheck.Proofs.Execution.Trace
import FlowCheck.Proofs.Build.Steps
import FlowCheck.Proofs.Build.Departure
import FlowCheck.Proofs.Build.Frame
import FlowCheck.Proofs.Build.Node
import FlowCheck.Proofs.Build.Branching
import FlowCheck.Proofs.Build.Looping
import FlowCheck.Proofs.Build.Attempt
import FlowCheck.Proofs.Build.Statement
import FlowCheck.Proofs.Build.Function
import FlowCheck.Proofs.Check.Passes
import FlowCheck.Proofs.Check.Soundness
import FlowCheck.Proofs.Check.Safety
import FlowCheck.Proofs.Parse.Limit
import FlowCheck.Proofs.Parse.Position
import FlowCheck.Proofs.RoundTrip.File
import FlowCheck.Proofs.RoundTrip.Render
import FlowCheck.Proofs.Check.Agreement
import FlowCheck.Proofs.Check.Schedule
import FlowCheck.Proofs.Check.Code
import FlowCheck.Proofs.Resolve.Scoping
import FlowCheck.Proofs.Token.Spelling
import FlowCheck.Proofs.Token.Determined
import FlowCheck.Proofs.Source.Decoding
import FlowCheck.Proofs.Token.Location
import FlowCheck.Proofs.Token.Completion
import FlowCheck.Proofs.Resolve.Raise
import FlowCheck.Proofs.Tree.Subtree
import FlowCheck.Proofs.Build.Ways
import FlowCheck.Proofs.Build.Handling
import FlowCheck.Proofs.Build.Course
import FlowCheck.Proofs.Build.Outcome
import FlowCheck.Proofs.Build.Growth
import FlowCheck.Proofs.Build.Placement
import FlowCheck.Proofs.Build.Liveness
import FlowCheck.Proofs.Build.Confinement
import FlowCheck.Proofs.Build.Passage
import FlowCheck.Proofs.Build.Enclosure
import FlowCheck.Proofs.Build.Record
import FlowCheck.Proofs.Check.Occurrence
import FlowCheck.Proofs.Check.Ending
import FlowCheck.Proofs.Check.Cleanup
import FlowCheck.Proofs.Check.Stray
import FlowCheck.Proofs.Check.Reached
import FlowCheck.Proofs.Check.Warning
import FlowCheck.Proofs.Check.Abort
