import SpnCore.Buckets.LedgerCmp
import SpnCore.Buckets.Restoration
import SpnCore.Buckets.SkipList
import SpnCore.Catchup.OutOfSync
import SpnCore.Catchup.VerifyLedgerChain
import SpnCore.Herder.Completeness
import SpnCore.Herder.ExtractValidValue
import SpnCore.History.HistoryArchive
import SpnCore.Invariant.AccountSubEntriesCountIsValid
import SpnCore.Invariant.LiabilitiesMatchOffers
import SpnCore.Ledger.ReplayProtection
import SpnCore.Ledger.Reports
import SpnCore.Ledger.StoreSigners
import SpnCore.Overlay.Bookkeeping
import SpnCore.Overlay.Channel
import SpnCore.Overlay.Floodgate
import SpnCore.Scp.ClosestVBlocking
import SpnCore.Scp.Depth
import SpnCore.Scp.Network
import SpnCore.Scp.NodeInQuorum
import SpnCore.Scp.NodeWeight
import SpnCore.Scp.NominationInvariants
import SpnCore.Scp.QuorumSetUtils
import SpnCore.Scp.TimerExpiry
import SpnCore.Transactions.PathPayments
import SpnCore.Transactions.SignatureWeights
import SpnCore.Transactions.Uncrossed
import SpnCore.Util.BitsetEnumerator
