import Treewalk.Main
import Treewalk.Prompt.Highlight
import Treewalk.Proofs.Prompt.Completed
import Treewalk.Proofs.Prompt.Continuation
import Treewalk.Proofs.Prompt.Nested
import Treewalk.Proofs.Prompt.Painted
import Treewalk.Proofs.Report.Place
import Treewalk.Proofs.Syntax.Noted
import Treewalk.Proofs.Syntax.Progress
import Treewalk.Proofs.Syntax.Unseparated
import Treewalk.Proofs.Run.Arrays
import Treewalk.Proofs.Run.Chain
import Treewalk.Proofs.Run.Control
import Treewalk.Proofs.Run.Exact
import Treewalk.Proofs.Run.Fault
import Treewalk.Proofs.Run.Frames
import Treewalk.Proofs.Run.Identity
import Treewalk.Proofs.Run.Insertion
import Treewalk.Proofs.Run.Itself
import Treewalk.Proofs.Run.Layout
import Treewalk.Proofs.Run.Literal
import Treewalk.Proofs.Run.Pieces
import Treewalk.Proofs.Run.Scope
import Treewalk.Proofs.Run.Shown
import Treewalk.Proofs.Run.Unrelated
import Treewalk.Proofs.Run.Wrapped
import Treewalk.Proofs.Text.Place
import Treewalk.Proofs.Token.Longest
