import Nipworker.Client.AccountSessions
import Nipworker.Client.AddressStrings
import Nipworker.Client.PagerWindows
import Nipworker.Client.SignRequests
import Nipworker.Client.SubscriptionHandles
import Nipworker.Client.SubscriptionHook
import Nipworker.Client.TagHelpers
import Nipworker.Crypto.DecryptCache
import Nipworker.Crypto.EventIdText
import Nipworker.Crypto.MintKeys
import Nipworker.Crypto.Nip04
import Nipworker.Crypto.Nip44
import Nipworker.Crypto.PendingAnswers
import Nipworker.Crypto.SignerCalls
import Nipworker.Crypto.SignerCommands
import Nipworker.Mesh.Connected
import Nipworker.Mesh.Rejected
import Nipworker.Mesh.RoundTrip
import Nipworker.Native.BufferStream
import Nipworker.Native.DeliveryState
import Nipworker.Native.InstallGate
import Nipworker.Native.LeaseBalance
import Nipworker.Native.RouteCapacity
import Nipworker.Native.SharedEngine
import Nipworker.Native.SubscriptionCommands
import Nipworker.Parser.Nutzap
import Nipworker.Parser.RequestKeys
import Nipworker.Parser.TagArraysText
import Nipworker.Parser.Threading
import Nipworker.Parser.ZapAmounts
import Nipworker.Pipeline.Counting
import Nipworker.Pipeline.LimiterRuns
import Nipworker.Pipeline.ProofConservation
import Nipworker.Proxy.EventDedup
import Nipworker.Proxy.FrameDelivery
import Nipworker.Proxy.ProxyReconnect
import Nipworker.Storage.IndexedSets
import Nipworker.Storage.NativeStorages
import Nipworker.Storage.OutboxRelays
import Nipworker.Storage.RingLog
import Nipworker.Storage.ShardLoads
import Nipworker.Storage.SnapshotAnswers
import Nipworker.Storage.TombstoneLoad
import Nipworker.Transport.ArrayFrame
import Nipworker.Transport.ConnectionAuth
import Nipworker.Transport.ConnectionLive
import Nipworker.Transport.ConnectionReplay
import Nipworker.Types.EventText
import Nipworker.Types.JsonReturns
import Nipworker.Worker.EoseOrder
import Nipworker.Worker.GoodCopies
import Nipworker.Worker.MeshTtl
import Nipworker.Worker.MeshWatch
import Nipworker.Worker.Reopened
import Nipworker.Worker.SubscriptionLeaks
import Nipworker.Worker.SubscriptionRouting
