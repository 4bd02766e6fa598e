import RctAutomation.Sql.Value
import RctAutomation.Sql.Table
import RctAutomation.Sql.Statement
import RctAutomation.Sql.Program
import RctAutomation.Sql.Interleave
import RctAutomation.Sql.File
import RctAutomation.Sql.Serial
import RctAutomation.Runs
import RctAutomation.Messages
import RctAutomation.Schema
import RctAutomation.MessageStore
import RctAutomation.StoreRuns
import RctAutomation.RootRows
import RctAutomation.StoreAtomic
import RctAutomation.RoundTrip
import RctAutomation.StoredPlaylists
import RctAutomation.StoredSchedule
import RctAutomation.Playlists
import RctAutomation.OverrideQueue
import RctAutomation.PlaylistViews
import RctAutomation.Replacement
import RctAutomation.WebApi
import RctAutomation.WebCommand
import RctAutomation.PlaylistEditors
import RctAutomation.PlaylistUpdate
import RctAutomation.SharedConnection
import RctAutomation.RequirementEngine
import RctAutomation.EarliestBlock
import RctAutomation.InternalTime
import RctAutomation.EngineCalls
import RctAutomation.AutomationState
import RctAutomation.Occurrences
import RctAutomation.OverrideExit
import RctAutomation.MplayerSession
import RctAutomation.PlaybackCleanup
import RctAutomation.TrackLimits
import RctAutomation.PrefixDraw
import RctAutomation.WeightedDraw
import RctAutomation.FetchedItems
import RctAutomation.PlaylistFilter
import RctAutomation.TimedPops
import RctAutomation.StatementBinding
import RctAutomation.RaisedPlaycounts
import RctAutomation.ScheduleCommands
import RctAutomation.LegalId
import RctAutomation.RepeatedLegalId
import RctAutomation.PlaylistFetch
import RctAutomation.AlsoSave
import RctAutomation.PlayerTimeout
import RctAutomation.PropertyAnswers
import RctAutomation.WireMessages
import RctAutomation.RunOnce
import RctAutomation.BufferedReading
import RctAutomation.AcmdLines
import RctAutomation.LoadTwice
import RctAutomation.PlayerDescriptors
import RctAutomation.MplayerDuration
import RctAutomation.PlayCounts
import RctAutomation.Json
import RctAutomation.Proto
import RctAutomation.JsonProtobuf
import RctAutomation.JsonRoundTrip
import RctAutomation.JsonMessages
import RctAutomation.JsonRequests
import RctAutomation.Locks
import RctAutomation.Mutexes
import RctAutomation.ReachableDatabases
import RctAutomation.SerialStores
import RctAutomation.ManualOverride
import RctAutomation.DurableSchedule
