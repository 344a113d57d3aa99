import Ramflux.Node.ReplayGuard
import Ramflux.Crypto.RatchetAtomicity
import Ramflux.Crypto.RatchetDelivery
import Ramflux.Node.InboxDeliveries
import Ramflux.Node.PublicationCleanup
import Ramflux.Node.SenderRetrySlots
import Ramflux.Node.RouterWalAcks
import Ramflux.Node.SettlementRuns
import Ramflux.Node.InboxPageResume
import Ramflux.Protocol.ScannerCanonical
import Ramflux.Crypto.GroupRoles
import Ramflux.Crypto.GroupConvergence
import Ramflux.Crypto.CustodyEquivocation
import Ramflux.Crypto.HomeCommitTimes
import Ramflux.Node.HomeSourceOutcome
import Ramflux.Node.MigrationDrainRuns
import Ramflux.Node.NotifyWalCompaction
import Ramflux.Protocol.TaskSafety
import Ramflux.Protocol.SurfaceMonotone
import Ramflux.Crypto.MembershipCommitment
import Ramflux.Crypto.SFrameHeader
import Ramflux.Node.ExpirySweep
import Ramflux.Node.SourceBudget
import Ramflux.Gateway.IssuedProbe
