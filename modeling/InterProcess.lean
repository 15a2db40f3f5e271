import InterProcess.LockFree.GroupNotifier
import InterProcess.LockFree.MessageFifo
import InterProcess.LockFree.MessageDelivery
import InterProcess.Async.Delivery
import InterProcess.Async.SingleWriter
import InterProcess.Buffering.Completion
import InterProcess.Buffering.Overrun
import InterProcess.Barber.Closing
import InterProcess.Kaleidoscope.Tokenise
import InterProcess.Kaleidoscope.Writing
import InterProcess.Async.Stopping
import InterProcess.Async.FlowControl
import InterProcess.Threading.HierarchicalMutex
import InterProcess.Buffering.Consumption
import InterProcess.Barber.Chairs
import InterProcess.Buffering.Startup
import InterProcess.Barber.Startup
import InterProcess.Lib.Slots
import InterProcess.LockFree.Notified
import InterProcess.LockFree.TryThreads
import InterProcess.Barber.Emptiness
import InterProcess.Kaleidoscope.Items
import InterProcess.Kaleidoscope.Termination
import InterProcess.DiskScheduling.Sweep
import InterProcess.DiskScheduling.SeekDistance
import InterProcess.DiskScheduling.Overloads
import InterProcess.Semaphores.Program
import InterProcess.Semaphores.Bounded
import InterProcess.Async.Conservation
import InterProcess.Async.MessageBuffer
import InterProcess.Async.ReadBack
import InterProcess.Async.FormatText
import InterProcess.SystemV.GroupNotifier
import InterProcess.Async.WaitTillAllPopped
import InterProcess.Lib.Calls
import InterProcess.LockFree.RingFifo
import InterProcess.Lib.Blocks
import InterProcess.Threading.ParallelAccumulate
import InterProcess.Buffering.Processor
import InterProcess.Buffering.ProcessCreation
import InterProcess.Sqlite.Database
import InterProcess.Logging.FormatLog
import InterProcess.Logging.Lines
import InterProcess.Kaleidoscope.Sentinel
import InterProcess.DiskScheduling.Mirror
import InterProcess.DiskScheduling.SeekOverflow
import InterProcess.Kaleidoscope.Numeral
import InterProcess.LockFree.MessageErrors
import InterProcess.Kaleidoscope.TokenLoop
import InterProcess.TextEditor.Console
import InterProcess.TextEditor.Editor
import InterProcess.Lib.Monitor
import InterProcess.TextEditor.RawMode
import InterProcess.Sqlite.Attempts
import InterProcess.Sqlite.People
import InterProcess.Lib.Guarded
import InterProcess.Lib.Wakeups
import InterProcess.Threading.ThreadsafeQueue
import InterProcess.Threading.ThreadsafeStack
import InterProcess.Threading.DnsCache
import InterProcess.DiskScheduling.Arrivals
import InterProcess.Kaleidoscope.Original.Agreement
import InterProcess.Kaleidoscope.Streams
import InterProcess.Lib.Retry
import InterProcess.LockFree.Progress
import InterProcess.Processes.CreateProcesses
import InterProcess.TextEditor.Session
import InterProcess.Lib.SideBySide
import InterProcess.Pipes.Pipe
import InterProcess.Pipes.SendMessage
import InterProcess.Sqlite.Flushing
import InterProcess.Lib.Scopes
import InterProcess.Buffering.FailedForks
import InterProcess.Processes.Cleanup
import InterProcess.Buffering.Main
import InterProcess.Barber.ProcessCreation
import InterProcess.Barber.Main
import InterProcess.Sqlite.Main
