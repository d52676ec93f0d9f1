import ClosedLoopStepper.Foundations.Machine
import ClosedLoopStepper.Foundations.RingBuffer
import ClosedLoopStepper.Foundations.Framing
import ClosedLoopStepper.Foundations.Parity
import ClosedLoopStepper.Common.CriticalSections
import ClosedLoopStepper.Scheduler.PreemptedScheduler
import ClosedLoopStepper.Encoder.Cycles
import ClosedLoopStepper.Encoder.Quadrature
import ClosedLoopStepper.Encoder.Dispatching
import ClosedLoopStepper.Encoder.Position
import ClosedLoopStepper.Ipc.Bounds
import ClosedLoopStepper.Ipc.Blocks
import ClosedLoopStepper.Commander.Encoders
import ClosedLoopStepper.Application.Protocol
import ClosedLoopStepper.Device.Angles
import ClosedLoopStepper.Device.Progress
import ClosedLoopStepper.Device.Overshoot
import ClosedLoopStepper.Device.RoundTrip
import ClosedLoopStepper.Device.StaleBytes
import ClosedLoopStepper.Device.Decoders
import ClosedLoopStepper.Device.Termination
import ClosedLoopStepper.Device.Damage
import ClosedLoopStepper.Device.Convergence
import ClosedLoopStepper.Device.Startup
import ClosedLoopStepper.Link.Endings
import ClosedLoopStepper.Device.MainLoop
import ClosedLoopStepper.Device.PreemptedService
import ClosedLoopStepper.Device.Reduction
import ClosedLoopStepper.Device.Servo
import ClosedLoopStepper.Encoder.PreemptedPosition
