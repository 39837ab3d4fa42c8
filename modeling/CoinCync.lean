import CoinCync.ActiveMiners
import CoinCync.AddressBook
import CoinCync.Admission
import CoinCync.AmountText
import CoinCync.AsertMonotone
import CoinCync.BanTerm
import CoinCync.BlockUndo
import CoinCync.Convergence
import CoinCync.DifficultyWindow
import CoinCync.ForkSignal
import CoinCync.ForkWalk
import CoinCync.FrostPersistence
import CoinCync.GateApply
import CoinCync.HeaderBody
import CoinCync.LightSync
import CoinCync.LoadContract
import CoinCync.MempoolSweep
import CoinCync.Multisig
import CoinCync.OutboundSubnets
import CoinCync.OutputCache
import CoinCync.PoolReplay
import CoinCync.ReorgCrash
import CoinCync.ReorgPolicy
import CoinCync.RollbackAtomicity
import CoinCync.ScanConvergence
import CoinCync.ShareCredit
import CoinCync.SigningData
import CoinCync.SnapshotInstall
import CoinCync.SpendBuilder
import CoinCync.SupplyEstimate
import CoinCync.Swap.AdaptorReveal
import CoinCync.SyncBans
import CoinCync.TargetGate
import CoinCync.TreeScan
import CoinCync.UniformSelection
import CoinCync.WorkTotals
