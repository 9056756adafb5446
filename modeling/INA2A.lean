import INA2A.SwitchSlots
import INA2A.SwitchResults
import INA2A.SwitchFailure
import INA2A.SwitchClose
import INA2A.Experts
import INA2A.CombinedLoops
import INA2A.SlotWindow
import INA2A.Forwarding
import INA2A.Window
import INA2A.Receiving
import INA2A.Aggregation
import INA2A.Interference
import INA2A.Registration
import INA2A.Replies
import INA2A.Redispatch
import INA2A.Tickets
import INA2A.Generations
import INA2A.Selection
import INA2A.ReplyIndex
import INA2A.LogStream
import INA2A.Queues
import INA2A.Completion
import INA2A.Conclusion
import INA2A.Link
import INA2A.Startup
