import Schedmon.Library.Transition
import Schedmon.Library.CyclicRange
import Schedmon.Library.EventLog
import Schedmon.Library.Admission
import Schedmon.Library.PiecewiseCopy
import Schedmon.Library.BoundedMap
import Schedmon.Library.Rounding
import Schedmon.Library.Stutter
import Schedmon.Library.Handles
import Schedmon.Library.SharedCounter
import Schedmon.Library.Consecutive
import Schedmon.SmoothedMetrics
import Schedmon.RingBuffer
import Schedmon.RingBuffer.Interleaving
import Schedmon.RingBuffer.Header
import Schedmon.RingBuffer.Segments
import Schedmon.Dashboard.Records
import Schedmon.Dashboard.Drain
import Schedmon.SlidingWindow
import Schedmon.SlidingWindow.Naive
import Schedmon.ProcScanner.Scans
import Schedmon.PerfCounter
import Schedmon.ProcScanner
import Schedmon.Daemon.State
import Schedmon.Daemon.Slots
import Schedmon.Daemon.Sampling
import Schedmon.Daemon.Loop
import Schedmon.Daemon.SlotTable
import Schedmon.Daemon.Refinement
import Schedmon.Daemon.Descriptors
import Schedmon.Daemon.History
import Schedmon.Daemon.Sync
import Schedmon.Daemon.SlotLaw
import Schedmon.Daemon.Runs
import Schedmon.Daemon.Intervals
import Schedmon.Daemon.PassLaw
import Schedmon.Daemon.Windows
import Schedmon.Daemon.Publishing
import Schedmon.Daemon.Bounds
import Schedmon.Daemon.Repetition
import Schedmon.Daemon.Tracking
import Schedmon.Daemon.Rings
import Schedmon.Daemon.Replay
import Schedmon.Daemon.Deltas
import Schedmon.Daemon.Resets
import Schedmon.Bpf.Handlers
import Schedmon.Bpf.PidView
import Schedmon.Bpf.Tasks
import Schedmon.Bpf.Isolation
import Schedmon.Bpf.Residue
import Schedmon.Bpf.Tracer
import Schedmon.Bpf.Accounting
import Schedmon.Bpf.ExecNames
import Schedmon.Bpf.RunQueue
import Schedmon.Bpf.Completions
import Schedmon.Daemon.Waits
import Schedmon.Daemon.Migrations
import Schedmon.Daemon.Naming
import Schedmon.Daemon.TopN
import Schedmon.Daemon.Watching
import Schedmon.Calibrate
import Schedmon.Classifier
import Schedmon.Recovery
import Schedmon.Calibrate.Order
import Schedmon.Library.SampleVariance
import Schedmon.Calibrate.Summaries
import Schedmon.Library.Decimal
import Schedmon.Library.CString
import Schedmon.Daemon.IoText
import Schedmon.ProcScanner.StatText
import Schedmon.Library.Utf8
import Schedmon.Library.PythonText
import Schedmon.Dashboard.StatText
import Schedmon.Dashboard.Update
import Schedmon.Dashboard.CpuShare
import Schedmon.Library.Argmax
import Schedmon.Dashboard.Refreshes
import Schedmon.Dashboard.Backlog
import Schedmon.Dashboard.ThresholdsConf
import Schedmon.Calibrate.ThresholdsConf
import Schedmon.Daemon.Probing
import Schedmon.Library.SwapScan
import Schedmon.Daemon.Visits
import Schedmon.Daemon.ProcIo
import Schedmon.Daemon.Staleness
import Schedmon.ProcScanner.Ranking
import Schedmon.Daemon.FailedScan
import Schedmon.Daemon.FdBudget
import Schedmon.Library.Csv
import Schedmon.Library.Directory
import Schedmon.Library.FixedPoint
import Schedmon.Daemon.Quiet
import Schedmon.Daemon.Batches
import Schedmon.Daemon.CsvLog
import Schedmon.Daemon.CsvText
import Schedmon.Calibrate.CollectSamples
import Schedmon.Library.CommandLine
import Schedmon.Daemon.ParseArgs
import Schedmon.Calibrate.Command
import Schedmon.Library.StampedCache
import Schedmon.Dashboard.Reload
import Schedmon.Library.StructLayout
import Schedmon.Dashboard.Layout
import Schedmon.Dashboard.Rows
