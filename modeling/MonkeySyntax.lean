import MonkeySyntax.Main
import MonkeySyntax.Proofs.Accounting
import MonkeySyntax.Proofs.Arguments
import MonkeySyntax.Proofs.BlockEnd
import MonkeySyntax.Proofs.CanonicalText
import MonkeySyntax.Proofs.Carets
import MonkeySyntax.Proofs.Chains
import MonkeySyntax.Proofs.Composition
import MonkeySyntax.Proofs.Diagnostics
import MonkeySyntax.Proofs.LineLookup
import MonkeySyntax.Proofs.LinesAndFiles
import MonkeySyntax.Proofs.Locality
import MonkeySyntax.Proofs.Merging
import MonkeySyntax.Proofs.Nesting
import MonkeySyntax.Proofs.Operations
import MonkeySyntax.Proofs.Precedence
import MonkeySyntax.Proofs.Provenance
import MonkeySyntax.Proofs.Reports
import MonkeySyntax.Proofs.Representation
import MonkeySyntax.Proofs.Resynchronisation
import MonkeySyntax.Proofs.RoundTrip
import MonkeySyntax.Proofs.Semicolons
import MonkeySyntax.Proofs.Spacing
import MonkeySyntax.Proofs.Termination
import MonkeySyntax.Proofs.Tokenization
