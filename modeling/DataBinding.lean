import DataBinding.CommandLine
import DataBinding.Main
import DataBinding.Proofs.Host.Bundles
import DataBinding.Proofs.Binding.Kept
import DataBinding.Proofs.Binding.Narrowing
import DataBinding.Proofs.Json.Write
import DataBinding.Proofs.Binding.Standalone
import DataBinding.Proofs.Forest.Atomicity
import DataBinding.Proofs.Forest.Replacement
import DataBinding.Proofs.Host.Reentry
import DataBinding.Proofs.Binding.Echo
import DataBinding.Proofs.Binding.Visible
import DataBinding.Proofs.Host.Coverage
import DataBinding.Proofs.Forest.Footprints
import DataBinding.Proofs.Host.Cascades
import DataBinding.Proofs.Forest.Identities
import DataBinding.Proofs.Binding.Tokens
import DataBinding.Proofs.Binding.Disclosure
import DataBinding.Proofs.Forest.Adoption
import DataBinding.Proofs.Host.Offers
import DataBinding.Proofs.Blueprint.Respelling
import DataBinding.Proofs.Path.Grammar
import DataBinding.Proofs.Path.Positions
import DataBinding.Proofs.Host.Reports
import DataBinding.Proofs.Forest.Navigation
import DataBinding.Proofs.Host.PendingChanges
