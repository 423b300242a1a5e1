import LkmSandbox.Kernel
import LkmSandbox.Lib.Heap
import LkmSandbox.Lib.Run
import LkmSandbox.Lib.Chain
import LkmSandbox.Mev.Container
import LkmSandbox.Mev.Driver
import LkmSandbox.Mev.Store
import LkmSandbox.Mev.Rep
import LkmSandbox.Mev.Refine
import LkmSandbox.Mev.Trim
import LkmSandbox.Mev.Calls
import LkmSandbox.Mev.Reach
import LkmSandbox.Mev.Bytes
import LkmSandbox.Mev.Flat
import LkmSandbox.Mev.RoundTrip
import LkmSandbox.Mev.Disclosure
import LkmSandbox.Mev.Interleave
import LkmSandbox.Mev.Linear
import LkmSandbox.Mev.Boot
import LkmSandbox.Lib.DirTree
import LkmSandbox.Lib.Fifo
import LkmSandbox.RingBuffer
import LkmSandbox.Device.Driver
import LkmSandbox.Device.Sessions
import LkmSandbox.Device.Cursor
import LkmSandbox.Debugfs
import LkmSandbox.Debugfs.Message
import LkmSandbox.Init
import LkmSandbox.Memory
import LkmSandbox.Rehearsals.Read
import LkmSandbox.Mev.Offsets
import LkmSandbox.Mev.Follow
import LkmSandbox.Mev.ReadOnly
import LkmSandbox.Mev.Size
import LkmSandbox.Mev.Failure
import LkmSandbox.Mev.Progress
import LkmSandbox.Mev.Stream
import LkmSandbox.Mev.LastWrite
import LkmSandbox.Mev.Files
import LkmSandbox.Device.Open
import LkmSandbox.Lib.Decimal
import LkmSandbox.Memory.Show
import LkmSandbox.Process
import LkmSandbox.Debugfs.Chunks
import LkmSandbox.Lib.Lines
import LkmSandbox.Rehearsals.Write
import LkmSandbox.Lib.Ledger
import LkmSandbox.Things
import LkmSandbox.Modules.Outcome
import LkmSandbox.Modules.Runs
import LkmSandbox.Modules.Major
import LkmSandbox.IoPorts.Tasks
import LkmSandbox.IoPorts.Programs
