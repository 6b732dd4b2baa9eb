import GitRpc.Library.Runs
import GitRpc.Library.Leases
import GitRpc.Library.Histories
import GitRpc.Library.Blocks
import GitRpc.Library.WakeupPipe
import GitRpc.Library.TopSlot
import GitRpc.Library.Drains
import GitRpc.Library.Paths
import GitRpc.Library.Futures
import GitRpc.Library.Families
import GitRpc.Library.Uses
import GitRpc.Library.Registries
import GitRpc.Library.Words
import GitRpc.Library.LittleEndian
import GitRpc.Library.Allocations
import GitRpc.Library.Simulations
import GitRpc.Library.Sextets
import GitRpc.Common.GitServiceCommon
import GitRpc.Dispatcher.DispatcherTypes
import GitRpc.Dispatcher.MessagePumpEPoll
import GitRpc.Dispatcher.InFlight
import GitRpc.Dispatcher.DrainOrder
import GitRpc.Dispatcher.NestedPosts
import GitRpc.Dispatcher.NestedDrains
import GitRpc.Dispatcher.StartHandshake
import GitRpc.Dispatcher.MessageFilters
import GitRpc.Dispatcher.BoundCalls
import GitRpc.Repository.GitRepo
import GitRpc.Repository.RepositoryManager
import GitRpc.Repository.TaskSafety
import GitRpc.Repository.Sessions
import GitRpc.Repository.FailedOpens
import GitRpc.Repository.OpenArgs
import GitRpc.Repository.PackHistory
import GitRpc.Repository.RepoProxy
import GitRpc.Requests.RecvPackStream
import GitRpc.Requests.Pending
import GitRpc.Requests.Replies
import GitRpc.Requests.Streams
import GitRpc.Requests.Ownership
import GitRpc.Requests.PackCalls
import GitRpc.Requests.Calls
import GitRpc.Requests.UnaryHandlers
import GitRpc.Services.GitServiceAsyncImpl
import GitRpc.Services.Routing
import GitRpc.Services.StateChanges
import GitRpc.Services.SuccessFlags
import GitRpc.Frontend.GitServer
import GitRpc.Frontend.Upload
import GitRpc.Frontend.Stalled
import GitRpc.Frontend.UnpackOk
import GitRpc.Frontend.Body
import GitRpc.Frontend.WriteStream
import GitRpc.Frontend.WholeBody
import GitRpc.Frontend.Commands
import GitRpc.Frontend.HttpHandler
import GitRpc.Frontend.ReportStatus
import GitRpc.Frontend.References
import GitRpc.TaskManager.ThreadPool
import GitRpc.TaskManager.Handover
import GitRpc.TaskManager.RegularTasks
import GitRpc.TaskManager.NamedRunners
import GitRpc.TaskManager.LostSignals
import GitRpc.TaskManager.InitTasks
import GitRpc.Events.EventHub
import GitRpc.Events.Unregistered
import GitRpc.Threading.Receivers
import GitRpc.Threading.ThreadNames
import GitRpc.Repository.NewReference
import GitRpc.Repository.ReferenceList
import GitRpc.Repository.RepoPaths
import GitRpc.Repository.CallsMade
import GitRpc.Frontend.CommandSection
import GitRpc.Frontend.WantsAndHaves
import GitRpc.Frontend.PathIndexes
import GitRpc.Base.Pickle
import GitRpc.Base.PickleIterator
import GitRpc.Base.PickleFormat
import GitRpc.Base.PickleBuffer
import GitRpc.Base.PickleReads
import GitRpc.Base.PickleRoundTrip
import GitRpc.Base.PickleImages
import GitRpc.Base.PickleFailures
import GitRpc.Base.PickleProgram
import GitRpc.Base.Base64
import GitRpc.Library.Potentials
import GitRpc.Requests.Completions
import GitRpc.Requests.UnaryRuns
