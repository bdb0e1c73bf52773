import StepScript.Placement
import StepScript.Run.Process
import StepScript.Session
import StepScript.Proofs.Agreement
import StepScript.Proofs.CanonicalLine
import StepScript.Proofs.LineRoundTrip
import StepScript.Proofs.LineEdits
import StepScript.Proofs.ContentEdits
import StepScript.Proofs.ParameterEdit
import StepScript.Proofs.ParameterUpdate
import StepScript.Proofs.Schedule
import StepScript.Proofs.RunRelation
import StepScript.Proofs.Sequence
import StepScript.Proofs.EditorActions
import StepScript.Proofs.RunInvariant
import StepScript.Proofs.FrozenRun
import StepScript.Proofs.RunMarks
import StepScript.Proofs.CleanOnDisk
import StepScript.Proofs.Autosave
import StepScript.Proofs.OverlappingSaves
import StepScript.Proofs.DrawnText
import StepScript.Proofs.ViewsAlike
import StepScript.Proofs.MarkPlaces
import StepScript.Proofs.LineLexemes
import StepScript.Proofs.LineRoles
import StepScript.Proofs.SharedEngine
import StepScript.Proofs.InsertRemove
import StepScript.Proofs.RunTrace
import StepScript.Proofs.StyleLayers
import StepScript.Proofs.ByteSlices
import StepScript.Proofs.ByteLexer
import StepScript.Proofs.TokenCover
import StepScript.Proofs.FirstComment
import StepScript.Proofs.Boundaries
import StepScript.Proofs.DroppedBlock
import StepScript.Proofs.ExactEdit
import StepScript.Proofs.ShownLines
import StepScript.Proofs.Uncommented
import StepScript.Proofs.CommentedLine
import StepScript.Proofs.ReadBack
import StepScript.Proofs.FormFields
import StepScript.Proofs.FailedReload
import StepScript.Proofs.KeptHeader
import StepScript.Proofs.Details
import StepScript.Proofs.HighlightAfterEdit
import StepScript.Proofs.StyleIntervals
import StepScript.Proofs.LineEndings
import StepScript.Proofs.RepeatedText
import StepScript.Proofs.IndexRange
import StepScript.Proofs.ListPieces
import StepScript.Proofs.OwnProcess
import StepScript.Proofs.LaunchedProgram
import StepScript.Proofs.QuotedWord
import StepScript.Proofs.QuotedArgument
