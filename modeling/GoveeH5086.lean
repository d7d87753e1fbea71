import GoveeH5086.Library.BigEndian
import GoveeH5086.Const
import GoveeH5086.Parser
import GoveeH5086.PacketFormat
import GoveeH5086.Library.FifoLock
import GoveeH5086.Library.Runs
import GoveeH5086.ReadNotification
import GoveeH5086.Coordinator
import GoveeH5086.Moves
import GoveeH5086.Exclusion
import GoveeH5086.History
import GoveeH5086.Library.Picking
import GoveeH5086.Readings
import GoveeH5086.PollState
import GoveeH5086.Updates
import GoveeH5086.Gates
import GoveeH5086.Library.Cadence
import GoveeH5086.Stalled
import GoveeH5086.Backlog
import GoveeH5086.Entry
import GoveeH5086.Reload
import GoveeH5086.ScriptDecoders
import GoveeH5086.Plausibility
import GoveeH5086.Library.Hexadecimal
import GoveeH5086.Library.Dict
import GoveeH5086.Monitor
import GoveeH5086.Schedules
import GoveeH5086.Attempts
import GoveeH5086.ConfigFlow
import GoveeH5086.Library.Reservation
import GoveeH5086.Configured
import GoveeH5086.Library.Backoff
import GoveeH5086.Library.Pool
import GoveeH5086.Streaming
import GoveeH5086.Pacing
import GoveeH5086.Library.SortBy
import GoveeH5086.MonitorMain
import GoveeH5086.Progress
import GoveeH5086.Entities
import GoveeH5086.Options
import GoveeH5086.Library.Checksum
import GoveeH5086.Commands
import GoveeH5086.Library.Rounds
import GoveeH5086.Library.Session
import GoveeH5086.Library.Visits
import GoveeH5086.Probing
import GoveeH5086.Capture
import GoveeH5086.Library.HexText
import GoveeH5086.SystemId
import GoveeH5086.Library.LastMatch
import GoveeH5086.Reading
import GoveeH5086.Library.Failing
import GoveeH5086.KeySearch
