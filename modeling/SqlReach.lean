import SqlReach.Main
import SqlReach.Proofs.Analysis.Verdict
import SqlReach.Proofs.Report.JsonText
import SqlReach.Proofs.Scanner.Outline
import SqlReach.Shape
import SqlReach.Proofs.Scanner.Names
import SqlReach.Proofs.Analysis.Monotonicity
import SqlReach.Proofs.CallTree.Walk
import SqlReach.Proofs.Command.Course
import SqlReach.Proofs.Command.ExitStatus
import SqlReach.Proofs.Report.FlowchartText
import SqlReach.Proofs.Command.Failures
import SqlReach.Proofs.Scanner.Blocks
import SqlReach.Proofs.Analysis.Arrangement
import SqlReach.Proofs.Report.FlaggedNames
import SqlReach.Proofs.Encoding.LineBreaks
import SqlReach.Proofs.FileTree.Contents
import SqlReach.Proofs.Analysis.LineEnds
import SqlReach.Proofs.Expansion.Avoidance
import SqlReach.Proofs.Expansion.Occurrences
import SqlReach.Proofs.FileTree.Opening
import SqlReach.Proofs.Journal.SetUp
import SqlReach.Proofs.Command.Transcript
import SqlReach.Proofs.Command.Series
import SqlReach.Proofs.Expansion.Succession
import SqlReach.Proofs.Report.FlowchartOrder
import SqlReach.Proofs.Report.JsonLayout
import SqlReach.Proofs.Expansion.Iterations
import SqlReach.Proofs.Scanner.Coherence
import SqlReach.Proofs.Scanner.Joining
import SqlReach.Proofs.Scanner.Padding
import SqlReach.Proofs.Scanner.Trimming
import SqlReach.Proofs.Encoding.Characters
import SqlReach.Proofs.Encoding.Texts
import SqlReach.Proofs.Source.Files
import SqlReach.Proofs.FileTree.RealLocations
import SqlReach.Proofs.FileTree.Resolution
import SqlReach.Proofs.FileTree.Keeping
import SqlReach.Proofs.Journal.Events
import SqlReach.Proofs.Command.Reading
import SqlReach.Proofs.Command.Records
import SqlReach.Proofs.CallTree.Addresses
import SqlReach.Proofs.Scanner.Patterns
import SqlReach.Proofs.Scanner.References
import SqlReach.Proofs.Arguments.Interleaving
