import Scriptlet.Main
import Scriptlet.Proofs.Cutting.Pieces
import Scriptlet.Proofs.Declaring.Sessions
import Scriptlet.Proofs.Drawing.Labels
import Scriptlet.Proofs.Evaluation.Arithmetic
import Scriptlet.Proofs.Evaluation.Mentioned
import Scriptlet.Proofs.Evaluation.Printed
import Scriptlet.Proofs.Lines.Carets
import Scriptlet.Proofs.Lines.Gathering
import Scriptlet.Proofs.Lowering.Counting
import Scriptlet.Proofs.Parsing.Inverse
import Scriptlet.Proofs.Parsing.Precedence
import Scriptlet.Proofs.Progress.Positions
import Scriptlet.Proofs.ReadOnly.Sessions
import Scriptlet.Proofs.Recovery.Incomplete
import Scriptlet.Proofs.Renaming.Rejected
import Scriptlet.Proofs.Replacing.CountingLoops
import Scriptlet.Proofs.Resolving.Accepted
import Scriptlet.Proofs.Scanning.Lines
import Scriptlet.Proofs.Scanning.Literals
import Scriptlet.Proofs.Scanning.Longest
import Scriptlet.Proofs.Scanning.Writing
import Scriptlet.Proofs.Scoping.Arena
import Scriptlet.Proofs.Scoping.Balanced
import Scriptlet.Proofs.Scoping.Listing
import Scriptlet.Proofs.Silencing.Cascades
import Scriptlet.Proofs.Spans.Boundaries
import Scriptlet.Proofs.Typing.Chains
import Scriptlet.Proofs.Typing.Soundness
