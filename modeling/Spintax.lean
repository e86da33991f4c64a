import Spintax.Decoding
import Spintax.Main
import Spintax.Markers.Display
import Spintax.Report
import Spintax.Session
import Spintax.Proofs.Agreement
import Spintax.Proofs.Auditing
import Spintax.Proofs.CommandLines
import Spintax.Proofs.Composition
import Spintax.Proofs.Expansions
import Spintax.Proofs.History
import Spintax.Proofs.Insertions
import Spintax.Proofs.Pairing
import Spintax.Proofs.Batches
import Spintax.Proofs.MarkerInput
import Spintax.Proofs.Matches
import Spintax.Proofs.Neutrality
import Spintax.Proofs.Overlap
import Spintax.Proofs.Rewriting
import Spintax.Proofs.Tokenization
import Spintax.Proofs.TableOrder
import Spintax.Proofs.Uniformity
import Spintax.Proofs.DocumentInput
import Spintax.Proofs.Precedence
import Spintax.Proofs.RoundTrip
import Spintax.Proofs.SettingLayers
