import TruthSeeker.Amm.CheckedArithmetic
import TruthSeeker.Consensus.Agreement
import TruthSeeker.Consensus.CheckedArithmetic
import TruthSeeker.Consensus.CutValidity
import TruthSeeker.Consensus.MissingParent
import TruthSeeker.Consensus.NilCertificates
import TruthSeeker.Consensus.ProposalDigest
import TruthSeeker.Consensus.TimeoutAuthentic
import TruthSeeker.Consensus.VotesOnce
import TruthSeeker.Crypto.AggregateValidity
import TruthSeeker.DataAvailability.Listener
import TruthSeeker.Hydentity.Batches
import TruthSeeker.Indexer.Acceptance
import TruthSeeker.Indexer.Faults
import TruthSeeker.Mempool.AcceptedTxs
import TruthSeeker.Mempool.BlockConstruction
import TruthSeeker.Mempool.CutAcceptance
import TruthSeeker.Mempool.DataVotes
import TruthSeeker.Mempool.MessageHeaders
import TruthSeeker.Mempool.PodaBroadcasts
import TruthSeeker.Mempool.ProofVote
import TruthSeeker.Mempool.StorageAgreement
import TruthSeeker.Mempool.SyncReplies
import TruthSeeker.Model.HashBinding
import TruthSeeker.Modules.Shutdown
import TruthSeeker.NodeState.BlobCoverage
import TruthSeeker.NodeState.ContractExecution
import TruthSeeker.NodeState.ProofOrder
import TruthSeeker.NodeState.ProposalEffect
import TruthSeeker.NodeState.QueueHistory
import TruthSeeker.NodeState.RefusedBlobs
import TruthSeeker.NodeState.RegistrationWindows
import TruthSeeker.NodeState.SettledOrigins
import TruthSeeker.NodeState.SettlementSearch
import TruthSeeker.NodeState.StuckTx
import TruthSeeker.NodeState.TimeoutOverflow
import TruthSeeker.NodeState.VerifiedBlobs
import TruthSeeker.P2p.PeerAuthenticity
import TruthSeeker.P2p.SameConnection
import TruthSeeker.Prover.Batches
import TruthSeeker.Sdk.CallerCallees
import TruthSeeker.Sdk.ExecutorAtomicity
import TruthSeeker.Sdk.MerkleUtils
import TruthSeeker.SmtToken.Agreement
import TruthSeeker.SmtToken.Supply
import TruthSeeker.Staking.AllOrNothing
import TruthSeeker.Staking.Conservation
import TruthSeeker.Steganography.BorderRedundancy
import TruthSeeker.Steganography.Recovery
import TruthSeeker.UuidTld.Contract
import TruthSeeker.Verifiers.NoirTotality
import TruthSeeker.Wallet.AccountBatches
import TruthSeeker.Wallet.AccountNonce
import TruthSeeker.Wallet.Builders
import TruthSeeker.Wallet.FailedActions
import TruthSeeker.Wallet.Persistence
import TruthSeeker.Wallet.SessionNonces
import TruthSeeker.Wallet.SessionWhitelist
import TruthSeeker.ZkPassport.UniqueIds
