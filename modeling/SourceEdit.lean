import SourceEdit.Main
import SourceEdit.Server.Tools
import SourceEdit.Proofs.Commit
import SourceEdit.Proofs.History
import SourceEdit.Proofs.CacheSymmetry
import SourceEdit.Proofs.NestedBlocks
import SourceEdit.Proofs.BlockSteps
import SourceEdit.Proofs.Operations
import SourceEdit.Proofs.CursorBounds
import SourceEdit.Proofs.Transactions
import SourceEdit.Proofs.BlockEnds
import SourceEdit.Proofs.CommentScan
import SourceEdit.Proofs.CommentStrides
import SourceEdit.Proofs.LinePositions
import SourceEdit.Proofs.IncludeLines
import SourceEdit.Proofs.IncludeForms
import SourceEdit.Proofs.IncludeDirective
import SourceEdit.Proofs.IncludeInsertion
import SourceEdit.Proofs.PatternSteps
import SourceEdit.Proofs.LinePattern
import SourceEdit.Proofs.IncludePattern
import SourceEdit.Proofs.MatchSpans
import SourceEdit.Proofs.DirectiveSpans
import SourceEdit.Proofs.Captures
import SourceEdit.Proofs.InventoryLines
import SourceEdit.Proofs.IncludeSearch
import SourceEdit.Proofs.IncludeGroups
import SourceEdit.Proofs.IncludePlace
import SourceEdit.Proofs.GroupInsertion
import SourceEdit.Proofs.GroupFields
import SourceEdit.Proofs.InsertedInventory
import SourceEdit.Proofs.PathWalk
import SourceEdit.Proofs.PathNames
import SourceEdit.Proofs.FileChanges
import SourceEdit.Proofs.Saving
import SourceEdit.Proofs.NoLostUpdate
import SourceEdit.Proofs.RealPath
import SourceEdit.Proofs.SaveFrame
import SourceEdit.Proofs.Confinement
import SourceEdit.Proofs.IncludeRemoval
import SourceEdit.Proofs.LineNumbers
import SourceEdit.Proofs.OpenBlocks
import SourceEdit.Proofs.MadeDirectories
import SourceEdit.Proofs.SaveSteps
import SourceEdit.Proofs.SaveOutcome
import SourceEdit.Proofs.SaveRoundTrip
import SourceEdit.Proofs.TextRoundTrip
import SourceEdit.Proofs.CounterpartKinds
import SourceEdit.Proofs.OpenDocuments
import SourceEdit.Proofs.Runs
import SourceEdit.Proofs.SparedFiles
import SourceEdit.Proofs.StaleCounterparts
import SourceEdit.Proofs.EditedText
import SourceEdit.Proofs.SaveInPlace
import SourceEdit.Proofs.EditTools
import SourceEdit.Proofs.AllowedPaths
import SourceEdit.Proofs.IncludeRoundTrip
import SourceEdit.Proofs.InsertedLines
import SourceEdit.Proofs.GroupChoice
import SourceEdit.Proofs.MirroredBlocks
import SourceEdit.Proofs.NearestClosing
import SourceEdit.Proofs.HiddenLines
import SourceEdit.Proofs.LeadingComments
import SourceEdit.Proofs.CursorMapping
import SourceEdit.Proofs.EnclosingBlocks
import SourceEdit.Proofs.CommentModes
import SourceEdit.Proofs.BlankedTwice
import SourceEdit.Proofs.CaughtFailures
import SourceEdit.Proofs.LiteralPattern
import SourceEdit.Proofs.LiteralSearch
import SourceEdit.Proofs.BackwardSearch
import SourceEdit.Proofs.UneditedFiles
import SourceEdit.Proofs.MarkedLines
import SourceEdit.Proofs.CommentedRange
import SourceEdit.Proofs.CommentedSelection
import SourceEdit.Proofs.ScanLookahead
import SourceEdit.Proofs.CommentedCode
import SourceEdit.Proofs.DeclarationPlace
import SourceEdit.Proofs.RepeatedDeclaration
import SourceEdit.Proofs.CounterpartNames
import SourceEdit.Proofs.CounterpartSearch
import SourceEdit.Proofs.RelativePaths
import SourceEdit.Proofs.DocumentPaths
import SourceEdit.Proofs.CounterpartOpening
import SourceEdit.Proofs.PathsBelow
import SourceEdit.Proofs.ProjectFiles
import SourceEdit.Proofs.GreedyRepetition
import SourceEdit.Proofs.PatternWords
import SourceEdit.Proofs.ExchangeRegion
import SourceEdit.Proofs.ExchangeLine
import SourceEdit.Proofs.TableEntries
import SourceEdit.Proofs.ExchangeEntries
import SourceEdit.Proofs.CommonRuns
import SourceEdit.Proofs.HunkPatches
import SourceEdit.Proofs.CompletedLines
import SourceEdit.Proofs.DifferenceText
