import RepoInit.Lib.Framing
import RepoInit.Hasher
import RepoInit.Tracer
import RepoInit.Metrics.Performance
import RepoInit.Metrics.Status
import RepoInit.Logging.Encoding
import RepoInit.Telnet.Framing
import RepoInit.Telnet.Commands
import RepoInit.Telnet.Effects
import RepoInit.Telnet.Clean
import RepoInit.Telnet.Descriptors
import RepoInit.Telnet.Accounting
import RepoInit.Telnet.Interactive
import RepoInit.Telnet.Quit
import RepoInit.Telnet.Shutdown
import RepoInit.ZeroMQ.Lockstep
import RepoInit.ZeroMQ.Bandwidth
import RepoInit.ZeroMQ.Monitor
import RepoInit.Metrics.Handles
import RepoInit.Telnet.Sweep
import RepoInit.Telnet.Completion
import RepoInit.Telnet.Escapes
import RepoInit.Telnet.Backspace
import RepoInit.Telnet.Cursor
import RepoInit.Telnet.Recall
import RepoInit.Telnet.Ownership
import RepoInit.Telnet.Destructor
import RepoInit.ConfigParser
import RepoInit.Telnet.Listening
import RepoInit.ZeroMQ.Status
import RepoInit.Seeder
import RepoInit.InputParser
import RepoInit.Metrics.CpuUsage
import RepoInit.Metrics.DiskIO
import RepoInit.Logging.HostLabels
import RepoInit.LogLevels
import RepoInit.FileMonitor
import RepoInit.Telnet.StripNVT
import RepoInit.Lib.Terminal
import RepoInit.Lib.Lifetimes
import RepoInit.Lib.Resources
import RepoInit.Lib.MapStore
import RepoInit.Telnet.Screen
import RepoInit.Telnet.Display
import RepoInit.Telnet.Isolation
import RepoInit.Telnet.Connections
import RepoInit.Telnet.Service
import RepoInit.Telnet.Levels
import RepoInit.Telnet.Idle
import RepoInit.Metrics.ProcessMetrics
import RepoInit.Main
import RepoInit.Running
import RepoInit.ZeroMQ.Lifecycle
import RepoInit.Connection.RawSocket
import RepoInit.FileWatch
import RepoInit.ConfigStore
import RepoInit.Logging.Sentry
