import Externalize.Main
import Externalize.Proofs.Bounds.Reports
import Externalize.Proofs.CommandLine.Effects
import Externalize.Proofs.CommandLine.Keys
import Externalize.Proofs.CommandLine.Ranges
import Externalize.Proofs.Config.Repositories
import Externalize.Proofs.Config.Stores
import Externalize.Proofs.Files.Outcomes
import Externalize.Proofs.Key.Grammar
import Externalize.Proofs.Literal.Pieces
import Externalize.Proofs.Literal.Triples
import Externalize.Proofs.Resource.Interleaving
import Externalize.Proofs.Resource.Keeping
import Externalize.Proofs.Resource.Numbers
import Externalize.Proofs.Resource.Successions
import Externalize.Proofs.Source.Orders
import Externalize.Proofs.Source.Plans
import Externalize.Proofs.Source.Terminators
