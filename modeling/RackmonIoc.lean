import RackmonIoc.Program.Basic
import RackmonIoc.Program.Wp
import RackmonIoc.Program.Pool
import RackmonIoc.Program.Section
import RackmonIoc.Program.Progress
import RackmonIoc.Program.Rely
import RackmonIoc.Program.Refine
import RackmonIoc.Program.InOrder
import RackmonIoc.CLib.Double
import RackmonIoc.CLib.Distance
import RackmonIoc.CLib.Rounding
import RackmonIoc.CLib.Buffer
import RackmonIoc.CLib.Scanf
import RackmonIoc.CLib.Numeral
import RackmonIoc.CLib.Cycle
import RackmonIoc.CLib.Filter
import RackmonIoc.CLib.Ring
import RackmonIoc.Base.DbCommon
import RackmonIoc.Base.Records
import RackmonIoc.Base.Monitor
import RackmonIoc.Base.Acknowledge
import RackmonIoc.Base.AiRecord
import RackmonIoc.Base.AiMonitor
import RackmonIoc.Base.ValMonitor
import RackmonIoc.Base.AlarmFilter
import RackmonIoc.Base.Smoothing
import RackmonIoc.Base.AoRecord
import RackmonIoc.Base.BiRecord
import RackmonIoc.Base.BiMonitor
import RackmonIoc.Event.Queue
import RackmonIoc.Event.Entries
import RackmonIoc.Event.Steps
import RackmonIoc.Event.Room
import RackmonIoc.Event.Runs
import RackmonIoc.Event.Delivery
import RackmonIoc.Driver.Ops
import RackmonIoc.Driver.DevGpio
import RackmonIoc.Driver.GpioPath
import RackmonIoc.Driver.DevI2c
import RackmonIoc.Driver.DevAiRackTemp
import RackmonIoc.Driver.DevBiRackProt
import RackmonIoc.Driver.Ioc
import RackmonIoc.Bus.Lock
import RackmonIoc.Bus.Box
import RackmonIoc.Bus.Store
import RackmonIoc.Bus.Details
import RackmonIoc.Bus.PinFiles
import RackmonIoc.Bus.Liveness
import RackmonIoc.Temp.Routing
import RackmonIoc.Temp.Store
import RackmonIoc.Temp.PrivateData
import RackmonIoc.Temp.NoCrash
import RackmonIoc.Temp.Letters
import RackmonIoc.Temp.Registers
import RackmonIoc.Temp.InpText
import RackmonIoc.Temp.Crosstalk
import RackmonIoc.Temp.MuxSwitch
import RackmonIoc.Temp.Decoding
import RackmonIoc.Temp.Encoding
import RackmonIoc.Temp.Setpoints
import RackmonIoc.Temp.Range
import RackmonIoc.Temp.FailedRead
import RackmonIoc.Temp.FailedWrite
import RackmonIoc.Temp.RateLimit
import RackmonIoc.Temp.Display
import RackmonIoc.Fan.Merge
import RackmonIoc.Fan.Format
import RackmonIoc.Prot.NoStaleGood
import RackmonIoc.Prot.Heartbeat
import RackmonIoc.Prot.Display
