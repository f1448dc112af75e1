import OsLab.Lib.Loop
import OsLab.Lib.LinkedTree
import OsLab.Lib.SortedInsert
import OsLab.Lib.DyadicTree
import OsLab.Lib.Recency
import OsLab.Lib.Bytes
import OsLab.Lib.Runs
import OsLab.Lib.Rounding
import OsLab.Lib.Channels
import OsLab.Lib.LoadOrder
import OsLab.Lib.Streams
import OsLab.Lib.Stdio
import OsLab.Lib.BackToBack
import OsLab.Lib.Packing
import OsLab.Lib.Chains
import OsLab.Lib.Holdings
import OsLab.Lib.Draws
import OsLab.Buddy.Model
import OsLab.Buddy.Invariant
import OsLab.Buddy.Allocate
import OsLab.Buddy.Release
import OsLab.Buddy.Runs
import OsLab.Buddy.History
import OsLab.Buddy.Leak
import OsLab.Buddy.Fit
import OsLab.Buddy.Reach
import OsLab.Buddy.Grant
import OsLab.Buddy.Address
import OsLab.Buddy.Returns
import OsLab.Buddy.Reader
import OsLab.Paging.Lru
import OsLab.Paging.Fifo
import OsLab.Paging.Random
import OsLab.Sjf.Lifecycle
import OsLab.Sjf.Model
import OsLab.Sjf.Refinement
import OsLab.Sjf.Conservation
import OsLab.Sjf.Exit
import OsLab.Sjf.Readdata
import OsLab.Sjf.Accounting
import OsLab.Sjf.Optimality
import OsLab.Sjf.Srtf
import OsLab.Mfs.Model
import OsLab.Mfs.ZoneMap
import OsLab.Mfs.NewBlock
import OsLab.Mfs.Chunk
import OsLab.Mfs.Write
import OsLab.Mfs.Storage
import OsLab.Mfs.Read
import OsLab.Mfs.Agreement
import OsLab.Mfs.Size
import OsLab.Mfs.FailedWrite
import OsLab.Mfs.Inline
import OsLab.Mfs.Peek
import OsLab.Mfs.Getdents
import OsLab.Mfs.Listing
import OsLab.Vfs.Model
import OsLab.Vfs.Size
import OsLab.Vfs.Truncate
import OsLab.Vfs.Seek
import OsLab.Vfs.Agreement
import OsLab.Vfs.Lookups
import OsLab.Vfs.Unlink
import OsLab.Vfs.Paths
import OsLab.Vfs.Create
import OsLab.Vfs.Open
import OsLab.Vfs.Codes
import OsLab.Vfs.Pipe
import OsLab.Sched.Model
import OsLab.Sched.Priority
import OsLab.Image.Model
import OsLab.Image.Blur
import OsLab.Image.Passes
import OsLab.Image.Threads
import OsLab.Image.SharedMemory
import OsLab.Image.SharedOrder
import OsLab.Image.SharedTrace
import OsLab.Image.Exact
import OsLab.Image.Pipes
import OsLab.Image.Protocol
import OsLab.Exec.Chain
import OsLab.Exec.Letters
import OsLab.Exec.Output
import OsLab.Pm.Model
import OsLab.Pm.Invariant
import OsLab.Pm.Reports
import OsLab.Pm.Exit
import OsLab.Pm.Calls
import OsLab.Pm.Lifecycle
import OsLab.Kernel.Model
import OsLab.Kernel.Queues
import OsLab.Kernel.Masks
import OsLab.Address.PageTable
import OsLab.Address.Segments
