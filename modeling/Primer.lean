import Primer.Main
import Primer.ScopeTree
import Primer.Proofs.Failures
import Primer.Proofs.ReadBack
import Primer.Proofs.Agreement
import Primer.Proofs.Flat
import Primer.Proofs.Globals
import Primer.Proofs.Progress
import Primer.Proofs.Shift
import Primer.Proofs.Embedding
import Primer.Proofs.Concatenation
import Primer.Proofs.Trimming
import Primer.Proofs.Hoisting
import Primer.Proofs.Safety
import Primer.Proofs.Tracing
import Primer.Proofs.Emission
import Primer.Proofs.Nesting
import Primer.Proofs.Termination
import Primer.Proofs.Bindings
import Primer.Proofs.Lines
import Primer.Proofs.Braces
import Primer.Proofs.Iteration
import Primer.Proofs.Innermost
import Primer.Proofs.Folding
import Primer.Proofs.Ordering
import Primer.Proofs.Splitting
import Primer.Proofs.Substitution
import Primer.Proofs.Carets
import Primer.Proofs.Operands
import Primer.Proofs.Parameters
import Primer.Proofs.Relocation
import Primer.Proofs.Loading
import Primer.Proofs.Counting
import Primer.Proofs.Correspondence
import Primer.Proofs.Numerals
