import DeviceProgramming.Machine.System
import DeviceProgramming.Machine.Threads
import DeviceProgramming.Machine.Count
import DeviceProgramming.Machine.Ownership
import DeviceProgramming.Machine.Int32
import DeviceProgramming.Xv6.File
import DeviceProgramming.Machine.Sleep
import DeviceProgramming.Xv6.Locks
import DeviceProgramming.Xv6.SleepLocks
import DeviceProgramming.Xv6.Allocation
import DeviceProgramming.Xv6.Reuse
import DeviceProgramming.Xv6.Sysfile
import DeviceProgramming.Xv6.MutexSafety
import DeviceProgramming.Xv6.MutexSleepers
import DeviceProgramming.Xv6.SignalWindow
import DeviceProgramming.Xv6.SemaphoreSafety
import DeviceProgramming.Machine.Cells
import DeviceProgramming.ParallelSort.ThreadSort
import DeviceProgramming.ParallelSort.Moves
import DeviceProgramming.Machine.Barrier
import DeviceProgramming.ParallelSort.Rounds
import DeviceProgramming.ParallelSort.Regions
import DeviceProgramming.ParallelSort.Sorted
import DeviceProgramming.Machine.RingBuffer
import DeviceProgramming.Offices.Calls
import DeviceProgramming.Offices.Office
import DeviceProgramming.Offices.Effects
import DeviceProgramming.Offices.Locks
import DeviceProgramming.Offices.Stages
import DeviceProgramming.Offices.Placed
import DeviceProgramming.Offices.Guards
import DeviceProgramming.Offices.Goes
import DeviceProgramming.Offices.Quiet
import DeviceProgramming.Offices.Handing
import DeviceProgramming.Offices.Taking
import DeviceProgramming.Offices.Delivery
import DeviceProgramming.Offices.Counting
import DeviceProgramming.Offices.Answers
import DeviceProgramming.Offices.Tokens
import DeviceProgramming.Offices.Balance
import DeviceProgramming.Machine.Deadlock
import DeviceProgramming.Offices.Waiting
import DeviceProgramming.Offices.Progress
import DeviceProgramming.Machine.Segment
import DeviceProgramming.MergeSort.Merge
import DeviceProgramming.MergeSort.Sequential
import DeviceProgramming.MergeSort.Threaded
import DeviceProgramming.MergeSort.Trace
import DeviceProgramming.MergeSort.Bounds
import DeviceProgramming.VectorMatrix.Sequential
import DeviceProgramming.Chardev.Device
import DeviceProgramming.Chardev.RoundTrip
import DeviceProgramming.Machine.Awake
import DeviceProgramming.ReaderWriter.Library
import DeviceProgramming.ReaderWriter.Moves
import DeviceProgramming.ReaderWriter.Exclusion
import DeviceProgramming.ReaderWriter.Handover
import DeviceProgramming.SignalServer.Server
import DeviceProgramming.SignalServer.Steps
import DeviceProgramming.SignalServer.Tokens
import DeviceProgramming.SignalServer.Doubles
import DeviceProgramming.SignalServer.Progress
import DeviceProgramming.Machine.Regroup
import DeviceProgramming.Concatenate.Directory
import DeviceProgramming.Concatenate.Moves
import DeviceProgramming.Concatenate.Departure
import DeviceProgramming.Concatenate.Selection
import DeviceProgramming.Concatenate.Copying
import DeviceProgramming.Concatenate.Conservation
import DeviceProgramming.Concatenate.Tidy
import DeviceProgramming.Concatenate.Contents
import DeviceProgramming.VectorMatrix.Threads
import DeviceProgramming.VectorMatrix.Reduction
import DeviceProgramming.VectorMatrix.Result
import DeviceProgramming.VectorMatrix.Product
import DeviceProgramming.ParallelSort.Split
import DeviceProgramming.Machine.Inversions
import DeviceProgramming.ParallelSort.Measure
import DeviceProgramming.ParallelSort.Termination
import DeviceProgramming.ReaderWriter.Owner
import DeviceProgramming.Machine.Alone
import DeviceProgramming.ReaderWriter.Main
import DeviceProgramming.ReaderWriter.Lifetime
import DeviceProgramming.Xv6.SysCond
import DeviceProgramming.Offices.Heap
import DeviceProgramming.Offices.Initialised
import DeviceProgramming.Offices.Untested
import DeviceProgramming.Offices.Bytes
import DeviceProgramming.BubbleSort.Sort
import DeviceProgramming.BubbleSort.Indices
import DeviceProgramming.Chardev.Driver
import DeviceProgramming.Chardev.Messages
import DeviceProgramming.Chardev.Faults
import DeviceProgramming.Xv6.Wakeups
import DeviceProgramming.Machine.Fifo
import DeviceProgramming.Buffers.Buffer
import DeviceProgramming.Buffers.Refinement
import DeviceProgramming.Concatenate.Solo
import DeviceProgramming.Concatenate.Overwriting
import DeviceProgramming.Concatenate.Iteration
import DeviceProgramming.Concatenate.Ending
import DeviceProgramming.Concatenate.Plain
import DeviceProgramming.Concatenate.Subdirectories
import DeviceProgramming.Machine.Simulation
import DeviceProgramming.FileConcatenate.ThreadFunc
import DeviceProgramming.FileConcatenate.Moves
import DeviceProgramming.FileConcatenate.Departure
import DeviceProgramming.FileConcatenate.Pairs
import DeviceProgramming.FileConcatenate.CopyLoops
import DeviceProgramming.FileConcatenate.Simulation
import DeviceProgramming.FileConcatenate.Keeping
import DeviceProgramming.FileConcatenate.Solo
import DeviceProgramming.FileConcatenate.Iteration
import DeviceProgramming.FileConcatenate.Ending
import DeviceProgramming.LinePrinter.Printer
import DeviceProgramming.LinePrinter.Passes
import DeviceProgramming.LinePrinter.Numbers
import DeviceProgramming.Xv6.Arguments
import DeviceProgramming.Machine.RefCount
import DeviceProgramming.OpenFiles.Table
import DeviceProgramming.OpenFiles.Effects
import DeviceProgramming.OpenFiles.Counting
import DeviceProgramming.OpenFiles.References
import DeviceProgramming.OpenFiles.Targets
import DeviceProgramming.OpenFiles.Allocation
import DeviceProgramming.OpenFiles.Safety
import DeviceProgramming.Machine.Calls
import DeviceProgramming.Machine.Transfers
import DeviceProgramming.FileData.Files
import DeviceProgramming.FileData.Agreement
import DeviceProgramming.FileData.Views
import DeviceProgramming.FileData.Safety
import DeviceProgramming.Machine.Potential
import DeviceProgramming.Offices.Ending
import DeviceProgramming.ReaderWriter.Ending
import DeviceProgramming.SignalServer.Ending
import DeviceProgramming.Xv6.SemaphoreSleepers
import DeviceProgramming.Xv6.SemaphoreSlots
import DeviceProgramming.Xv6.Spinning
import DeviceProgramming.LinePrinter.Toggled
