import Stencil.Text.Location
import Stencil.Body.Tree
import Stencil.Splice
import Stencil.Proofs.Scan.Layout
import Stencil.Proofs.Body.Meaning
import Stencil.Proofs.Scan.Markers
import Stencil.Proofs.Document
import Stencil.Proofs.Scan.Place
import Stencil.Proofs.Session
import Stencil.Proofs.Splice
import Stencil.Proofs.Render
import Stencil.Proofs.Append
import Stencil.Proofs.Excerpt
import Stencil.Proofs.Parser.Report
import Stencil.Proofs.Splice.Backward
import Stencil.Proofs.Body.Missing
import Stencil.Proofs.Body.Report
import Stencil.Proofs.Body.Tokens
import Stencil.Proofs.Body.Faulty
import Stencil.Proofs.Body.Frame
import Stencil.Proofs.Body.Viable
import Stencil.Proofs.Blame
import Stencil.Proofs.Body.Reserved
import Stencil.Proofs.Body.Blanks
import Stencil.Proofs.Body.Containment
import Stencil.Proofs.Nested
import Stencil.Proofs.Body.Influence
import Stencil.Proofs.Trace
import Stencil.Proofs.Body.Walk
import Stencil.Proofs.Offsets
import Stencil.Proofs.Progress
import Stencil.Proofs.Body.Lossless
import Stencil.Proofs.Parser.Longest
import Stencil.Proofs.Body.Longest
