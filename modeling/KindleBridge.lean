import KindleBridge.Wire.Allocation
import KindleBridge.Wire.Syndrome
import KindleBridge.Link.Acceptance
import KindleBridge.Transport.Fairness
import KindleBridge.Transport.Workers
import KindleBridge.Transport.Inbox
import KindleBridge.Transport.WriterQueue
import KindleBridge.Transport.Generations
import KindleBridge.Transport.Opening
import KindleBridge.Device.PipelineOrder
import KindleBridge.Device.Settling
import KindleBridge.Host.Settling
import KindleBridge.Host.FrameSizes
import KindleBridge.Host.LocalPaths
import KindleBridge.Host.Cancellation
import KindleBridge.Host.EscapeFilter
import KindleBridge.Host.CommandLine
import KindleBridge.Device.ShellExit
import KindleBridge.Device.ShellHangup
import KindleBridge.Device.Reported
import KindleBridge.Device.Paging
import KindleBridge.Device.Applications
import KindleBridge.Usb.Boundary
import KindleBridge.Usb.Control
import KindleBridge.Usb.Recovery
import KindleBridge.Tcp.Framing
import KindleBridge.Launcher.Supervision
import KindleBridge.Launcher.Retry
import KindleBridge.Launcher.Trial
import KindleBridge.Launcher.Fallback
import KindleBridge.Launcher.Rollback
import KindleBridge.Bundle.Canonical
import KindleBridge.Bundle.Confinement
import KindleBridge.Bundle.History
import KindleBridge.Bundle.Recovery
import KindleBridge.Bundle.Binding
import KindleBridge.Bundle.Rotation
import KindleBridge.Bundle.Builder
