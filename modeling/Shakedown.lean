import Shakedown.Batch
import Shakedown.Main
import Shakedown.Module.Load
import Shakedown.Proofs.Edit.Rendering
import Shakedown.Proofs.SourceMap.Identity
import Shakedown.Proofs.SourceMap.WordSize
import Shakedown.Proofs.Text.Ink
import Shakedown.Proofs.Script.Lexing
import Shakedown.Proofs.Script.Spacing
import Shakedown.Proofs.Text.Bytes
import Shakedown.Proofs.Edit.Cuts
import Shakedown.Proofs.Edit.StatementGap
import Shakedown.Proofs.Pass.Metadata
import Shakedown.Proofs.Edit.Recording
import Shakedown.Proofs.Module.Optimize
import Shakedown.Proofs.Script.Reader.Basic
import Shakedown.Proofs.Script.Reader.Function
import Shakedown.Proofs.Script.Regrouping
import Shakedown.Proofs.Script.Reader.Expression
import Shakedown.Proofs.Script.Reader.ModuleItem
import Shakedown.Proofs.Script.Reader.Statement
import Shakedown.Proofs.Script.Program
import Shakedown.Proofs.Pass.PureCall
import Shakedown.Proofs.Module.Tidiness
import Shakedown.Proofs.Edit.Occurrence
import Shakedown.Proofs.Module.Keeping
import Shakedown.Proofs.Module.Deletion
import Shakedown.Proofs.Module.Annotation
import Shakedown.Proofs.Pass.Recognition
import Shakedown.Proofs.Module.Load
import Shakedown.Proofs.Module.MapLines
import Shakedown.Proofs.Bundle.Purify
import Shakedown.Proofs.Bundle.License
import Shakedown.Proofs.Bundle.Manifest
import Shakedown.Proofs.Pass.MemberOrder
import Shakedown.Proofs.Pass.TopLevelCalls
import Shakedown.Proofs.Pass.MemberMeaning
import Shakedown.Proofs.Cache.Run
import Shakedown.Proofs.Module.Gate
import Shakedown.Proofs.Pass.HelperMeaning
import Shakedown.Proofs.Module.SecondRun
import Shakedown.Proofs.Batch.Directory
import Shakedown.Proofs.Module.Fallback
import Shakedown.Proofs.Module.MemberText
import Shakedown.Proofs.Module.Unrecognized
import Shakedown.Proofs.Pass.ClassShape
import Shakedown.Proofs.Module.Markers
import Shakedown.Proofs.Edit.Separators
import Shakedown.Proofs.Bundle.Repeated
import Shakedown.Proofs.Bundle.Tails
import Shakedown.Proofs.Edit.Stepwise
import Shakedown.Proofs.SourceMap.Merged
import Shakedown.Proofs.Pass.ImportOrder
import Shakedown.Proofs.Cache.Key
import Shakedown.Proofs.Module.MarkedTokens
