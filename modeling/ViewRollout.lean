import ViewRollout.Text.Blank
import ViewRollout.Text.Fold
import ViewRollout.Text.Lines
import ViewRollout.Text.Quoted
import ViewRollout.Text.Utf8
import ViewRollout.Text.Word
import ViewRollout.Sql.Reference
import ViewRollout.Sql.Paren
import ViewRollout.View.Dependencies
import ViewRollout.Substitution
import ViewRollout.Files.Tree
import ViewRollout.Toml.Document
import ViewRollout.Config.Load
import ViewRollout.Sequence.Output
import ViewRollout.Files.World
import ViewRollout.Command.Invocation
import ViewRollout.Main
import ViewRollout.Proofs.View.WrappedBody
import ViewRollout.Proofs.View.WholeNames
import ViewRollout.Proofs.View.OwnNames
import ViewRollout.Proofs.View.InlinedRoundTrip
import ViewRollout.Proofs.View.FreeReferences
import ViewRollout.Proofs.View.ChainGrammar
import ViewRollout.Proofs.View.ChainReading
import ViewRollout.Proofs.View.HeaderPattern
import ViewRollout.Proofs.View.HeaderSearch
import ViewRollout.Proofs.View.HeaderLine
import ViewRollout.Proofs.View.Canonical
import ViewRollout.Proofs.View.DefinitionOrder
import ViewRollout.Proofs.View.Expansion
import ViewRollout.Proofs.Sql.Token
import ViewRollout.Proofs.Files.Run
import ViewRollout.Proofs.Command.StatementEnds
import ViewRollout.Proofs.Sequence.HistoryRows
import ViewRollout.Proofs.Files.Writing
import ViewRollout.Proofs.Command.Statements
import ViewRollout.Proofs.Command.Configured
import ViewRollout.Proofs.Command.Deployment
import ViewRollout.Proofs.Files.Listing
import ViewRollout.Proofs.Command.Repetition
import ViewRollout.Proofs.Table
import ViewRollout.Proofs.Substitution.OnePass
import ViewRollout.Proofs.Command.SelectedPatches
import ViewRollout.Proofs.Toml.DistinctKeys
import ViewRollout.Proofs.Config.Layering
import ViewRollout.Proofs.Sql.ByteMarks
import ViewRollout.Proofs.Sql.CheckedScan
import ViewRollout.Proofs.Sql.CheckedReferences
import ViewRollout.Proofs.Sql.MatchingParen
import ViewRollout.Proofs.View.CheckedReading
import ViewRollout.Proofs.View.CheckedHeader
import ViewRollout.Proofs.View.CheckedInlining
import ViewRollout.Proofs.Sql.ReferenceSpans
import ViewRollout.Proofs.Sql.WholeWords
import ViewRollout.Proofs.Sequence.EntryLines
import ViewRollout.Proofs.Sequence.Display
import ViewRollout.Proofs.Sequence.Ranges
import ViewRollout.Proofs.Sequence.Limit
import ViewRollout.Proofs.Sequence.Room
import ViewRollout.Proofs.Sql.TokenCuts
import ViewRollout.Proofs.Sequence.HistoryLiteral
import ViewRollout.Proofs.Command.Confirmation
import ViewRollout.Proofs.Substitution.LineByLine
import ViewRollout.Proofs.Config.EnvironmentSchemas
import ViewRollout.Proofs.View.UnclosedGroups
import ViewRollout.Proofs.View.RestartedScan
