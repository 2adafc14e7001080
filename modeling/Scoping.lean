import Scoping.Proofs.BroughtIn
import Scoping.Proofs.Candidates
import Scoping.Proofs.Composing
import Scoping.Proofs.Context.Arrangement
import Scoping.Proofs.Context.Ownership
import Scoping.Proofs.HomeScope
import Scoping.Proofs.Independence
import Scoping.Proofs.Interning
import Scoping.Proofs.Invalidation
import Scoping.Proofs.LinkIdentity
import Scoping.Proofs.Lookup.Builtin
import Scoping.Proofs.Lookup.Derivation
import Scoping.Proofs.Lookup.Exhaustive
import Scoping.Proofs.Lookup.Imported
import Scoping.Proofs.Lookup.LoneClause
import Scoping.Proofs.Lookup.Nesting
import Scoping.Proofs.Lookup.Receiver
import Scoping.Proofs.Nearest
import Scoping.Proofs.Numbering
import Scoping.Proofs.Privacy
import Scoping.Proofs.Reordering
import Scoping.Proofs.Reporting
import Scoping.Proofs.Rooted
import Scoping.Proofs.Sharing
import Scoping.Proofs.Stability
import Scoping.Proofs.Syntax.Finishing
import Scoping.Proofs.Syntax.Linking
import Scoping.Proofs.Syntax.Refusing
import Scoping.Proofs.Visibility.Accounting
import Scoping.Proofs.Visibility.Ambiguity
import Scoping.Proofs.Visibility.Enclosing
import Scoping.Proofs.Visibility.Excepting
import Scoping.Proofs.Visibility.Marks
import Scoping.Proofs.Visibility.Statements
import Scoping.Proofs.Visibility.Targets
import Scoping.Proofs.WholeScope
import Scoping.Session
