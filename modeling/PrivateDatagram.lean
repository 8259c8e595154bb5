import PrivateDatagram.Chainstate.AccumulatorWindows
import PrivateDatagram.Chainstate.AmountCompression
import PrivateDatagram.Chainstate.BlockIndexCheck
import PrivateDatagram.Chainstate.BlockValue
import PrivateDatagram.Chainstate.ChainLocator
import PrivateDatagram.Chainstate.ChainTrust
import PrivateDatagram.Chainstate.CheckpointErasure
import PrivateDatagram.Chainstate.ClosestCheckpoint
import PrivateDatagram.Chainstate.CoinsCache
import PrivateDatagram.Chainstate.CoinsRecordSize
import PrivateDatagram.Chainstate.ConnectBlock
import PrivateDatagram.Chainstate.MostWorkChain
import PrivateDatagram.Chainstate.RecordedSupply
import PrivateDatagram.Chainstate.Reorganisation
import PrivateDatagram.Chainstate.UndoRecord
import PrivateDatagram.Chainstate.ZerocoinDB
import PrivateDatagram.Chainstate.ZerocoinSupply
import PrivateDatagram.Consensus.CompactTargets
import PrivateDatagram.Consensus.DarkGravity
import PrivateDatagram.Consensus.MerkleBranch
import PrivateDatagram.Consensus.PartialMerkleTree
import PrivateDatagram.Consensus.StakeSelection
import PrivateDatagram.Consensus.StakeWeight
import PrivateDatagram.Consensus.WideIntegers
import PrivateDatagram.Governance.BudgetAllotment
import PrivateDatagram.Governance.BudgetTallies
import PrivateDatagram.Governance.FinalizedBudgets
import PrivateDatagram.Governance.ProposalPayments
import PrivateDatagram.Governance.SporkSync
import PrivateDatagram.Governance.SwiftTx
import PrivateDatagram.Mempool.FeeEstimates
import PrivateDatagram.Mempool.OrphanPool
import PrivateDatagram.Network.AddrManCheck
import PrivateDatagram.Network.BlockDownloads
import PrivateDatagram.Network.BloomFilter
import PrivateDatagram.Network.NextBlocks
import PrivateDatagram.Repository.Locking
import PrivateDatagram.Repository.RecycleInPlace
import PrivateDatagram.Repository.Restart
import PrivateDatagram.Repository.SaveFailures
import PrivateDatagram.Repository.ShrinkStops
import PrivateDatagram.Script.EvalSafety
import PrivateDatagram.Script.Multisig
import PrivateDatagram.Transfer.DecryptionBuffers
import PrivateDatagram.Transfer.EncryptedSize
import PrivateDatagram.Transfer.FileExpiry
import PrivateDatagram.Transfer.FreeNode
import PrivateDatagram.Transfer.HasFiles
import PrivateDatagram.Transfer.ReceivedRecord
import PrivateDatagram.Validation.DuplicateInputs
import PrivateDatagram.Validation.FileTransfers
import PrivateDatagram.Validation.OwnPayments
import PrivateDatagram.Wallet.Deliveries
import PrivateDatagram.Wallet.ExactSelection
import PrivateDatagram.Wire.BaseEncodings
import PrivateDatagram.Wire.CanonicalLengths
import PrivateDatagram.Wire.MoneyText
import PrivateDatagram.Wire.SignatureHash
import PrivateDatagram.Wire.TransactionRoundTrip
