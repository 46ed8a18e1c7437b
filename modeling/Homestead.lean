import Homestead.Lib.Prog
import Homestead.Lib.CasTable
import Homestead.Lib.RelyGuarantee
import Homestead.Lib.Halts
import Homestead.Lib.Traces
import Homestead.Lib.Monitor
import Homestead.Lib.Can
import Homestead.Lib.Futures
import Homestead.Lib.FirstSeen
import Homestead.Lib.Leb128
import Homestead.Lib.Simulation
import Homestead.Lib.Avp
import Homestead.Model.ImpuStore
import Homestead.Model.ImpuCodec
import Homestead.Model.XmlUtils
import Homestead.Model.ImplicitRegistrationSet
import Homestead.Model.MemcachedCache
import Homestead.Model.ByteStore
import Homestead.Model.ParallelLookup
import Homestead.Model.BaseHssCache
import Homestead.Model.Flows
import Homestead.Model.Tasks
import Homestead.Model.ImpuRegDataTask
import Homestead.Model.DiameterTasks
import Homestead.Model.Cx
import Homestead.Model.HssConnection
import Homestead.Model.ImpiTasks
import Homestead.Model.Registrar
import Homestead.Model.Node
import Homestead.Model.HssRequests
import Homestead.Proofs.PublicIds
import Homestead.Proofs.Varbyte
import Homestead.Proofs.RoundTrip
import Homestead.Proofs.Data
import Homestead.Proofs.Solo
import Homestead.Proofs.SoloPut
import Homestead.Proofs.SoloGet
import Homestead.Proofs.PutThenGet
import Homestead.Proofs.DeleteComplete
import Homestead.Proofs.PutTerminates
import Homestead.Proofs.Lookup
import Homestead.Proofs.ForeignLookup
import Homestead.Proofs.ClosedFor
import Homestead.Proofs.Closure
import Homestead.Proofs.GeoClosure
import Homestead.Proofs.Calls
import Homestead.Proofs.Concurrent
import Homestead.Proofs.Setters
import Homestead.Proofs.NoDowngrade
import Homestead.Proofs.NoLostUpdate
import Homestead.Proofs.ProfileMatch
import Homestead.Proofs.Removals
import Homestead.Proofs.RetriesEnd
import Homestead.Proofs.Answers
import Homestead.Proofs.FailedPut
import Homestead.Proofs.PushAcknowledged
import Homestead.Proofs.DeleteReported
import Homestead.Proofs.Deregistration
import Homestead.Proofs.TaskRuns
import Homestead.Proofs.RegDataSteps
import Homestead.Proofs.RegDataRuns
import Homestead.Proofs.OneAnswer
import Homestead.Proofs.RegDataFrame
import Homestead.Proofs.PushScope
import Homestead.Proofs.ThreeWayMerge
import Homestead.Proofs.SetImsSubXml
import Homestead.Proofs.MappingShape
import Homestead.Proofs.Undecodable
import Homestead.Proofs.LookupPolicy
import Homestead.Proofs.ExpiryDrift
import Homestead.Proofs.UntouchedIrs
import Homestead.Proofs.MappingKeys
import Homestead.Proofs.WildcardLoop
import Homestead.Proofs.RealIdentities
import Homestead.Proofs.MappingExpiry
import Homestead.Proofs.ByteRefinement
import Homestead.Proofs.Registrations
import Homestead.Proofs.NodeRuns
import Homestead.Proofs.Registrar
import Homestead.Proofs.Registered
import Homestead.Proofs.CxMessages
import Homestead.Proofs.AuthTasks
import Homestead.Proofs.FailureReplies
import Homestead.Proofs.Provisioned
import Homestead.Proofs.HssRequests
import Homestead.Proofs.NodeRequests
import Homestead.Proofs.ShownLater
import Homestead.Proofs.Justified
