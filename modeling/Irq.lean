import Irq.Bus.Memory
import Irq.Bus.Words
import Irq.Config.Reader
import Irq.Handler.Script
import Irq.History
import Irq.Json.Natural
import Irq.Proofs.CallLog
import Irq.Proofs.ClockBound
import Irq.Proofs.Intact
import Irq.Proofs.Likeness
import Irq.Proofs.Moments
import Irq.Proofs.Restart
import Irq.Proofs.Services
import Irq.Proofs.SharedQueue
import Irq.Proofs.Simulation
import Irq.Proofs.Stamps
import Irq.Proofs.Tally
import Irq.Proofs.Timing
import Irq.Proofs.TriggerBalance
import Irq.Proofs.Untimed
import Irq.Proofs.Waits
import Irq.Queue
import Irq.Shared
import Irq.Proofs.Independence
import Irq.Proofs.Checks
import Irq.Proofs.Failures
import Irq.Proofs.PendingBit
import Irq.Proofs.Acknowledged
import Irq.Proofs.RegisterCells
import Irq.Proofs.FrontEnd
import Irq.Proofs.ContextQueue
import Irq.Proofs.Draining
import Irq.Proofs.WaitingTime
import Irq.Proofs.Polling
import Irq.Proofs.Measuring
import Irq.Proofs.Instruments
import Irq.Proofs.Workload
import Irq.Proofs.PollEffect
import Irq.Proofs.Urgency
import Irq.Proofs.ServiceOrder
import Irq.Proofs.RegisterWindow
import Irq.Proofs.WideAccess
import Irq.Proofs.WriteBack
import Irq.Proofs.InputVector
import Irq.Proofs.Loading
