import CleanWeb.Zk.Completeness
import CleanWeb.Dapr.Overflow
import CleanWeb.Settle.Inclusion
import CleanWeb.Settle.Binding
import CleanWeb.Settle.Pseudonyms
import CleanWeb.Settle.Backing
import CleanWeb.Settle.Evidence
import CleanWeb.Storage.Credit
import CleanWeb.Dapr.Extraction
import CleanWeb.Dapr.Separable
import CleanWeb.Contracts.Holders
import CleanWeb.Contracts.Backdating
import CleanWeb.Contracts.PayoutLedger
import CleanWeb.Contracts.Linkage
import CleanWeb.Contracts.Maturity
import CleanWeb.Contracts.Window
import CleanWeb.Hub.Recognition
import CleanWeb.Hub.Anchored
import CleanWeb.Wallet.Usage
import CleanWeb.Settle.Retry
import CleanWeb.Settle.MoreEvidence
import CleanWeb.Settle.Reference
import CleanWeb.Settle.ProvenWeights
import CleanWeb.Dapr.Superfan
import CleanWeb.Contracts.Dispersal
import CleanWeb.Contracts.Verdict
import CleanWeb.Contracts.Containment
import CleanWeb.Hub.Ownership
import CleanWeb.Hub.Atomic
import CleanWeb.Hub.Search
import CleanWeb.Dapr.Listeners
import CleanWeb.Dapr.LargestRemainder
import CleanWeb.Settle.Precision
import CleanWeb.Settle.SignatureText
import CleanWeb.Player.Settled
import CleanWeb.Settle.Modes
import CleanWeb.Storage.Download
import CleanWeb.Contracts.Liveness
