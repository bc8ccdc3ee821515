import Nominal.Main
import Nominal.Proofs.Matching
import Nominal.Proofs.Search
import Nominal.Source.Catalogue
import Nominal.Proofs.Unification
import Nominal.Proofs.Answers
import Nominal.Proofs.Flattening
import Nominal.Proofs.Ancestry
import Nominal.Proofs.Expression
import Nominal.Proofs.Loading
import Nominal.Proofs.WellFormed
import Nominal.Proofs.Depth
import Nominal.Proofs.Supertypes
import Nominal.Proofs.Paths
import Nominal.Proofs.Retrying
import Nominal.Proofs.Reuse
import Nominal.Proofs.Nominality
import Nominal.Proofs.Equivariance
import Nominal.Proofs.Reordering
import Nominal.Proofs.RoundTrip
import Nominal.Proofs.Ledger
import Nominal.Proofs.Guarding
import Nominal.Proofs.Congruence
import Nominal.Proofs.Interfaces
import Nominal.Proofs.Growth
import Nominal.Proofs.Limits
import Nominal.Proofs.Binding
import Nominal.Proofs.Truncation
import Nominal.Proofs.Climbing
import Nominal.Proofs.Validity
import Nominal.Proofs.Interning
import Nominal.Proofs.Bookkeeping
import Nominal.Proofs.Origins
import Nominal.Proofs.Reflexivity
import Nominal.Proofs.Unambiguity
import Nominal.Proofs.Qualification
import Nominal.Proofs.JsonText
import Nominal.Proofs.Persistence
