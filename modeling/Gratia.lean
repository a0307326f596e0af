import Gratia.Consensus.Commitment
import Gratia.Consensus.Agreement
import Gratia.Consensus.StreamletSafety
import Gratia.Consensus.StreamletEpochs
import Gratia.Consensus.StreamletOrder
import Gratia.Core.Emission
import Gratia.Staking.Conservation
import Gratia.Staking.Bans
import Gratia.Staking.Yield
import Gratia.Vm.Noninterference
import Gratia.Vm.Transparency
import Gratia.Vm.MemoryLimit
import Gratia.Zk.ShieldedTx
import Gratia.Zk.Allocation
import Gratia.Zk.Gadgets
import Gratia.Consensus.TransactionsRoot
import Gratia.State.Traces
import Gratia.State.Retention
import Gratia.State.Rollback
import Gratia.Consensus.Receipts
import Gratia.State.Reorg
import Gratia.Wallet.SigningFormat
import Gratia.Governance.VotingRule
import Gratia.Governance.Emergencies
import Gratia.Governance.Polling
import Gratia.Consensus.ForkChoice
import Gratia.Consensus.Proposers
import Gratia.Consensus.Restart
import Gratia.Consensus.Sync
import Gratia.Consensus.Attestations
import Gratia.Consensus.Selection
import Gratia.Pol.Restart
import Gratia.Pol.Streak
import Gratia.Network.Deduplication
import Gratia.Network.RateLimiter
import Gratia.Network.Reputation
import Gratia.Network.Suppression
import Gratia.Network.SyncManager
import Gratia.Wallet.Recovery
import Gratia.Wallet.Ledger
import Gratia.Vm.Frames
import Gratia.Vm.Storage
import Gratia.Vm.Lifecycle
import Gratia.Vm.Leb128
