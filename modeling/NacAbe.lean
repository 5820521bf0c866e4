import NacAbe.Analysis.AccessControl
import NacAbe.Analysis.AnchorHistory
import NacAbe.Analysis.AttributeStrings
import NacAbe.Analysis.Availability
import NacAbe.Analysis.BufferScans
import NacAbe.Analysis.CacheAccess
import NacAbe.Analysis.CacheSoundness
import NacAbe.Analysis.CachedPolicies
import NacAbe.Analysis.CommandLedger
import NacAbe.Analysis.CommandOrder
import NacAbe.Analysis.ConsumeAccounting
import NacAbe.Analysis.ConsumeAgreement
import NacAbe.Analysis.ContentReports
import NacAbe.Analysis.DeferredReplies
import NacAbe.Analysis.Deployment
import NacAbe.Analysis.DistinctWaiters
import NacAbe.Analysis.EmptyAttributes
import NacAbe.Analysis.EndToEnd
import NacAbe.Analysis.FetchBounds
import NacAbe.Analysis.FetchSettlement
import NacAbe.Analysis.FlowBalance
import NacAbe.Analysis.KeyAvailability
import NacAbe.Analysis.KeyDelivery
import NacAbe.Analysis.KeyIsolation
import NacAbe.Analysis.KeyObjectNames
import NacAbe.Analysis.KeyRequestErrors
import NacAbe.Analysis.KeyReuse
import NacAbe.Analysis.NoLostConsume
import NacAbe.Analysis.ParamAdoption
import NacAbe.Analysis.ParamAgreement
import NacAbe.Analysis.ParamAuthenticity
import NacAbe.Analysis.ParamRecovery
import NacAbe.Analysis.PlaintextLengths
import NacAbe.Analysis.PolicyDelivery
import NacAbe.Analysis.PolicyInstallation
import NacAbe.Analysis.PolicyInterference
import NacAbe.Analysis.PolicyLookup
import NacAbe.Analysis.PolicyProvenance
import NacAbe.Analysis.PolicyRejection
import NacAbe.Analysis.PolicyUpdates
import NacAbe.Analysis.Recoverability
import NacAbe.Analysis.SegmentSizes
import NacAbe.Analysis.SharedFetch
import NacAbe.Analysis.SingleFlight
import NacAbe.Analysis.ThrowingCallbacks
import NacAbe.Analysis.TrustAnchors
import NacAbe.Interface.AuthorityEvents
import NacAbe.Interface.ConsumerReadiness
import NacAbe.Interface.ConsumerReports
import NacAbe.Interface.DecryptedKeys
import NacAbe.Interface.GrantedKeys
import NacAbe.Interface.HonestRuns
import NacAbe.Interface.KeptContentKeys
import NacAbe.Interface.KeyObjects
import NacAbe.Interface.KeyRequests
import NacAbe.Interface.ParamExchange
import NacAbe.Interface.ParamNetwork
import NacAbe.Interface.PolicyExchange
import NacAbe.Interface.PolicyStore
import NacAbe.Interface.ProducedPackets
import NacAbe.Interface.ProducerCommands
import NacAbe.Interface.RequestStorage
import NacAbe.Interface.SealedKeys
import NacAbe.Interface.TrustLoads
import NacAbe.Library.Chunks
import NacAbe.Library.LongestPrefix
import NacAbe.Library.Memo
import NacAbe.Library.PartialMap
import NacAbe.Library.Reentrant
import NacAbe.Library.Runs
import NacAbe.Library.Separated
import NacAbe.Library.Tlv
import NacAbe.Model.Crypto
import NacAbe.Model.Name
import NacAbe.Model.OpenAbe
import NacAbe.Model.Packet
import NacAbe.Model.Prelude
import NacAbe.Program.AbeSupport
import NacAbe.Program.AttributeAuthority
import NacAbe.Program.CacheProducer
import NacAbe.Program.Consumer
import NacAbe.Program.DataEncDec
import NacAbe.Program.DataOwner
import NacAbe.Program.ParamFetcher
import NacAbe.Program.Producer
import NacAbe.Program.TrustConfig
