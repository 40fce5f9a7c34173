import Reckon.Console
import Reckon.Proofs.Composition
import Reckon.Proofs.Confinement
import Reckon.Proofs.Coverage
import Reckon.Proofs.Culprit
import Reckon.Proofs.Modes
import Reckon.Proofs.Nesting
import Reckon.Proofs.Reporting
import Reckon.Proofs.Respelling
import Reckon.Proofs.Settling
import Reckon.Proofs.Emission
import Reckon.Proofs.Journals
import Reckon.Proofs.Legibility
import Reckon.Proofs.Precedence
import Reckon.Proofs.Recording
import Reckon.Proofs.Grouping
import Reckon.Proofs.Acceptance
import Reckon.Proofs.Decimals
import Reckon.Proofs.Exactness
import Reckon.Proofs.Overflow
import Reckon.Proofs.Lookahead
import Reckon.Proofs.Excerpts
import Reckon.Proofs.Dependence
import Reckon.Proofs.Unwrapping
import Reckon.Proofs.Lines
import Reckon.Proofs.Misses
import Reckon.Proofs.Extent
import Reckon.Proofs.Discipline
import Reckon.Proofs.Returning
