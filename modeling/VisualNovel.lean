import VisualNovel.Manuscript.Reader
import VisualNovel.Manuscript.Schema
import VisualNovel.Playback.Transcript
import VisualNovel.Proofs.Binary.Order
import VisualNovel.Proofs.Excerpt
import VisualNovel.Proofs.Playback.Coherent
import VisualNovel.Proofs.Playback.Ending
import VisualNovel.Proofs.Playback.Follow
import VisualNovel.Proofs.Playback.Host
import VisualNovel.Proofs.Playback.Lines
import VisualNovel.Proofs.Playback.Listening
import VisualNovel.Proofs.Playback.Names
import VisualNovel.Proofs.Playback.Pacing
import VisualNovel.Proofs.Playback.Portraits
import VisualNovel.Proofs.Playback.Preload
import VisualNovel.Proofs.Playback.Reopened
import VisualNovel.Proofs.Playback.View
import VisualNovel.Proofs.Playback.Waiting
import VisualNovel.Proofs.PoolHistory
import VisualNovel.Proofs.Script.Diagnosis
import VisualNovel.Proofs.Script.Editing
import VisualNovel.Proofs.Script.Formats
import VisualNovel.Proofs.Script.Grammar
import VisualNovel.Proofs.Script.Limits
import VisualNovel.Proofs.Script.Meaning
import VisualNovel.Proofs.Script.OneByOne
import VisualNovel.Proofs.Script.Recognized
import VisualNovel.Proofs.Script.Typed
import VisualNovel.Settings.File
