import RwModbus.WordOrder
import RwModbus.WriteBack
import RwModbus.PollMarks
import RwModbus.InFlight
import RwModbus.TwoPasses
import RwModbus.Convergence
import RwModbus.HiddenBytes
import RwModbus.DataFlow
import RwModbus.Quality
import RwModbus.Mirror
import RwModbus.TypedAccess
import RwModbus.Heating
import RwModbus.Distillation
import RwModbus.SingleRun
import RwModbus.Barrier
import RwModbus.Deadlock
import RwModbus.SourceWalk
import RwModbus.ShortNames
import RwModbus.NullSource
import RwModbus.OwnEntries
import RwModbus.PathSlashes
import RwModbus.NameResolution
import RwModbus.Folders
import RwModbus.OpcClient
import RwModbus.Slave
import RwModbus.Requests
import RwModbus.ByteOrders
import RwModbus.ScaledValues
import RwModbus.Selection
import RwModbus.Accessors
import RwModbus.NumberRead
import RwModbus.DistHistory
import RwModbus.BlockCopy
import RwModbus.AlarmCounts
import RwModbus.EzConfig
import RwModbus.EzSeries
import RwModbus.HeatPower
import RwModbus.UpdateMaster
import RwModbus.AnyOrder
import RwModbus.Delivery
import RwModbus.JsonAnswer
import RwModbus.PollSpacing
import RwModbus.Readout
import RwModbus.Session
import RwModbus.TaskTable
import RwModbus.SetPoint
import RwModbus.EzStore
import RwModbus.Untouched
import RwModbus.SwitchOff
