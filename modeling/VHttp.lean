import VHttp.Foundations.Runs
import VHttp.Foundations.Probing
import VHttp.Foundations.RingQueue
import VHttp.Foundations.ConditionVariables
import VHttp.Foundations.CString
import VHttp.Foundations.Delimiters
import VHttp.Foundations.Pieces
import VHttp.Foundations.Cutting
import VHttp.Foundations.Memory
import VHttp.Foundations.StringCalls
import VHttp.Foundations.Formats
import VHttp.Foundations.Paths
import VHttp.Foundations.Slots
import VHttp.VHashTable
import VHttp.HashTableSoundness
import VHttp.HashTableInsertions
import VHttp.HashTableTermination
import VHttp.HashTableRemoval
import VHttp.HashTableCopies
import VHttp.VString
import VHttp.StringViews
import VHttp.StringBuilding
import VHttp.StringEdits
import VHttp.StringCopies
import VHttp.SplitBounds
import VHttp.SplitPieces
import VHttp.Trimming
import VHttp.HttpRequest
import VHttp.HeaderFields
import VHttp.HeaderLines
import VHttp.HashTableProbes
import VHttp.HashTableCount
import VHttp.HashTableWalk
import VHttp.UrlDecoding
import VHttp.DecoderIndex
import VHttp.PercentEncoding
import VHttp.RequestLine
import VHttp.RequestBuffer
import VHttp.CompleteRequest
import VHttp.Parsing
import VHttp.RequestHead
import VHttp.WellFormedRequest
import VHttp.ReusedRequest
import VHttp.RequestLineContract
import VHttp.VArrayOperations
import VHttp.EventLoop
import VHttp.ConnectionClosing
import VHttp.ConnectionIndices
import VHttp.VThreadPool
import VHttp.TaskOrder
import VHttp.PoolChanges
import VHttp.PoolWait
import VHttp.EndlessTasks
import VHttp.ThreadDescriptors
import VHttp.SleepingPool
import VHttp.LostWakeups
import VHttp.TaskSignals
import VHttp.WorkerCounts
import VHttp.StrandedProducers
import VHttp.VFile
import VHttp.FileReading
import VHttp.VMime
import VHttp.EpollHttpWorker
import VHttp.WorkerSteps
import VHttp.SendfileLoops
import VHttp.SubstringSearch
import VHttp.ProcessEvents
import VHttp.RequestStream
import VHttp.MessageFraming
import VHttp.ResponseTexts
import VHttp.FilePaths
import VHttp.ResponseBuilding
import VHttp.ServedResponses
import VHttp.ReceiveLoop
import VHttp.ResponseSending
import VHttp.Replies
import VHttp.ReplyFraming
import VHttp.FileDescriptors
import VHttp.ServingPaths
import VHttp.ResponseBounds
import VHttp.PipelinedRequests
import VHttp.OpenedPaths
import VHttp.SharedBuffer
import VHttp.RegisteredConnections
import VHttp.WholeServer
import VHttp.EdgeReports
import VHttp.BatchedRequests
import VHttp.CrowdedTables
import VHttp.Foundations.Descent
import VHttp.Foundations.Weights
import VHttp.PoolAtRest
import VHttp.LeftDescriptors
import VHttp.ReportedEvents
import VHttp.WorkLeft
import VHttp.ProcessEventsReturns
import VHttp.AnsweredClients
import VHttp.StoppedServer
import VHttp.SlowHeads
import VHttp.ReadReplies
