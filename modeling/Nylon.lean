import Nylon.Core.BundleSize
import Nylon.Core.ControlCodec
import Nylon.Core.ControlDelivery
import Nylon.Core.Distribution
import Nylon.Core.ExitTunnel
import Nylon.Core.FutureSound
import Nylon.Core.KnownNextHops
import Nylon.Core.LiveEntries
import Nylon.Core.LivePeers
import Nylon.Core.Networks
import Nylon.Core.NoPanic
import Nylon.Core.OwnPrefixes
import Nylon.Core.PacketRouting
import Nylon.Core.PeerSync
import Nylon.Core.ProbeAccounting
import Nylon.Core.RejectedConfig
import Nylon.Core.RouteCompute
import Nylon.Core.SeqnoQueue
import Nylon.Core.Settling
import Nylon.Core.SourceGC
import Nylon.Core.Starvation
import Nylon.Core.StatusMetric
import Nylon.Core.SystemRoutes
import Nylon.Core.WalkOrder
import Nylon.Network.Quiescent
import Nylon.Network.RetractAcks
import Nylon.Network.SeqnoRequests
import Nylon.Polyamide.AllowedIPsRuns
import Nylon.Polyamide.BatchOutcome
import Nylon.Polyamide.CarrierFraming
import Nylon.Polyamide.HandshakeAgreement
import Nylon.Polyamide.HeaderChecksum
import Nylon.Polyamide.IngressChecksum
import Nylon.Polyamide.Coalesce
import Nylon.Polyamide.ReplayFilter
import Nylon.Polyamide.SequentialSender
import Nylon.Polyamide.WireRoundTrip
import Nylon.State.ClockOffset
import Nylon.State.NumericBijection
import Nylon.State.SingleLink
