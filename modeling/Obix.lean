import Obix.Client.Batch
import Obix.Client.BatchResults
import Obix.Client.FilterRead
import Obix.Client.HistoryFilter
import Obix.Client.Listeners
import Obix.Client.QuantumSets
import Obix.Client.ReceivedData
import Obix.Device.Deletions
import Obix.Device.FailedSignUp
import Obix.Device.Folders
import Obix.Device.Hierarchy
import Obix.Device.Links
import Obix.Device.LoadFiles
import Obix.Device.Lookup
import Obix.Device.MetaFile
import Obix.Device.Nesting
import Obix.Device.Regions
import Obix.Device.Registry
import Obix.Device.SearchLoop
import Obix.Device.Shutdown
import Obix.Device.SignOff
import Obix.Device.TableMap
import Obix.Device.Territory
import Obix.History.Append
import Obix.History.AppendFailure
import Obix.History.AppendLoop
import Obix.History.AppendOutcome
import Obix.History.DevIds
import Obix.History.Facility
import Obix.History.GetFailure
import Obix.History.Nearest
import Obix.History.Ownership
import Obix.History.ParseCorrect
import Obix.History.ParseLog
import Obix.History.Placement
import Obix.History.Query
import Obix.History.QueryAlone
import Obix.History.QueryAnswer
import Obix.History.QueryConcurrent
import Obix.History.QueryCorrect
import Obix.History.QueryHeader
import Obix.History.Recognise
import Obix.History.Reload
import Obix.History.ScanExact
import Obix.History.Shutdown
import Obix.History.StampWidth
import Obix.History.Store
import Obix.History.StoreInvariant
import Obix.Lib.Blocks
import Obix.Lib.CString
import Obix.Lib.Disk
import Obix.Lib.DiskListing
import Obix.Lib.DiskTree
import Obix.Lib.Duration
import Obix.Lib.Gregorian
import Obix.Lib.LinkedList
import Obix.Lib.Numerals
import Obix.Lib.Occupancy
import Obix.Lib.Resumption
import Obix.Lib.Rings
import Obix.Lib.Runs
import Obix.Lib.Sprintf
import Obix.Lib.StableQueue
import Obix.Lib.Threads
import Obix.Lib.Tokens
import Obix.Lib.WaitGraph
import Obix.Lib.Written
import Obix.Restart.Closing
import Obix.Restart.Loading
import Obix.Restart.Parts
import Obix.Restart.Records
import Obix.Restart.Requests
import Obix.Restart.Restored
import Obix.Restart.Stored
import Obix.Server.Batch
import Obix.Server.BatchAnswers
import Obix.Server.BatchBackup
import Obix.Server.ContractFiles
import Obix.Server.ContractReading
import Obix.Server.Fcgi
import Obix.Server.HistorySearch
import Obix.Server.Owners
import Obix.Server.Response
import Obix.Server.Routed
import Obix.Server.Routing
import Obix.Server.TreeCopies
import Obix.Server.WatchSearch
import Obix.Utils.Bitmap
import Obix.Utils.BitmapOrder
import Obix.Utils.Cache
import Obix.Utils.CacheMutex
import Obix.Utils.Hash
import Obix.Utils.ListHead
import Obix.Utils.Monitor
import Obix.Utils.MonitorRuns
import Obix.Utils.Pathname
import Obix.Utils.Prime
import Obix.Utils.Ptask
import Obix.Utils.PtaskCancel
import Obix.Utils.PtaskCounts
import Obix.Utils.PtaskCycle
import Obix.Utils.PtaskDue
import Obix.Utils.PtaskLinks
import Obix.Utils.PtaskMoves
import Obix.Utils.PtaskOrder
import Obix.Utils.PtaskSteps
import Obix.Utils.RegionBalance
import Obix.Utils.RegionRuns
import Obix.Utils.Regions
import Obix.Utils.Reltime
import Obix.Utils.ReltimeFormat
import Obix.Utils.ReltimeReading
import Obix.Utils.ReltimeRoundTrip
import Obix.Utils.ReltimeText
import Obix.Utils.Strings
import Obix.Utils.TimespecSum
import Obix.Utils.Timestamp
import Obix.Utils.TimestampFormat
import Obix.Utils.TimestampOrder
import Obix.Utils.TimestampRoundTrip
import Obix.Utils.TimestampShape
import Obix.Utils.Tsync
import Obix.Watch.Backlog
import Obix.Watch.Balance
import Obix.Watch.Deadlock
import Obix.Watch.DeviceTree
import Obix.Watch.Harvests
import Obix.Watch.ItemLinks
import Obix.Watch.ItemRuns
import Obix.Watch.ItemSteps
import Obix.Watch.Items
import Obix.Watch.Notified
import Obix.Watch.Polls
import Obix.Watch.QueueMemory
import Obix.Watch.References
import Obix.Watch.Requests
import Obix.Watch.Service
import Obix.Watch.ServiceEdits
import Obix.Watch.SharedPolls
import Obix.Watch.TaskLife
import Obix.Watch.Visits
import Obix.Xml.Altered
import Obix.Xml.Borders
import Obix.Xml.Confined
import Obix.Xml.Dom
import Obix.Xml.Dump
import Obix.Xml.Ensured
import Obix.Xml.Href
import Obix.Xml.Items
import Obix.Xml.Legal
import Obix.Xml.Located
import Obix.Xml.Nested
import Obix.Xml.Node
import Obix.Xml.Owned
import Obix.Xml.Reader
import Obix.Xml.RelativeHref
import Obix.Xml.Removal
import Obix.Xml.RoundTrip
import Obix.Xml.Tidy
import Obix.Xml.Traversal
