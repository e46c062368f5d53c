import CocosChain.Chain.AccountMemberIndex
import CocosChain.Chain.AccountName
import CocosChain.Chain.BlockBody
import CocosChain.Chain.BlockCandidates
import CocosChain.Chain.ContractReentrancy
import CocosChain.Chain.CoreInOrders
import CocosChain.Chain.Crontabs
import CocosChain.Chain.FairTrades
import CocosChain.Chain.FeeSchedule
import CocosChain.Chain.Finality
import CocosChain.Chain.ForceSettlements
import CocosChain.Chain.ForkSides
import CocosChain.Chain.IrreversibleBlocks
import CocosChain.Chain.NftLocks
import CocosChain.Chain.NftRelations
import CocosChain.Chain.OperationResults
import CocosChain.Chain.OrphanedTransactions
import CocosChain.Chain.Proposals
import CocosChain.Chain.RegistrationFee
import CocosChain.Chain.Reindex
import CocosChain.Chain.RejectedBlock
import CocosChain.Chain.RequiredApprovalIndex
import CocosChain.Chain.SlotSchedule
import CocosChain.Chain.SpecialAuthorities
import CocosChain.Chain.TransactionAuthority
import CocosChain.Chain.UndoHistory
import CocosChain.Chain.UndoTracking
import CocosChain.Chain.Vesting
import CocosChain.Chain.VoteMajority
import CocosChain.Chain.WorkerPay
import CocosChain.Db.UndoUniqueKeys
