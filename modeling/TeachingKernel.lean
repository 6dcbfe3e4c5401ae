import TeachingKernel.Console.Decimal
import TeachingKernel.Console.Hexadecimal
import TeachingKernel.Console.Model
import TeachingKernel.Console.Numbers
import TeachingKernel.Console.Terminal
import TeachingKernel.Console.Unsigned
import TeachingKernel.Disk.Blocks
import TeachingKernel.Disk.Driver
import TeachingKernel.Disk.Interleaving
import TeachingKernel.Disk.Waiting
import TeachingKernel.FramePool.Accesses
import TeachingKernel.FramePool.Bitmaps
import TeachingKernel.FramePool.Codes
import TeachingKernel.FramePool.Completeness
import TeachingKernel.FramePool.Counting
import TeachingKernel.FramePool.EarlyMarking
import TeachingKernel.FramePool.EarlyPool
import TeachingKernel.FramePool.History
import TeachingKernel.FramePool.Marking
import TeachingKernel.FramePool.Model
import TeachingKernel.FramePool.Ops
import TeachingKernel.FramePool.Placement
import TeachingKernel.FramePool.Protection
import TeachingKernel.FramePool.Regions
import TeachingKernel.FramePool.ReleaseOrder
import TeachingKernel.FramePool.Rounding
import TeachingKernel.FramePool.Routing
import TeachingKernel.FramePool.Search
import TeachingKernel.FramePool.SharedMemory
import TeachingKernel.FramePool.Single
import TeachingKernel.FramePool.WellFormed
import TeachingKernel.Interrupts.Accounts
import TeachingKernel.Interrupts.Acknowledge
import TeachingKernel.Interrupts.Boot
import TeachingKernel.Interrupts.Cascade
import TeachingKernel.Interrupts.Controller
import TeachingKernel.Interrupts.Delivery
import TeachingKernel.Interrupts.Descriptors
import TeachingKernel.Interrupts.Discipline
import TeachingKernel.Interrupts.Dispatcher
import TeachingKernel.Interrupts.History
import TeachingKernel.Interrupts.Requests
import TeachingKernel.Interrupts.Service
import TeachingKernel.Interrupts.Stubs
import TeachingKernel.Interrupts.Transparency
import TeachingKernel.Lib.Ata
import TeachingKernel.Lib.ByteBuffer
import TeachingKernel.Lib.ByteMemory
import TeachingKernel.Lib.Chain
import TeachingKernel.Lib.Commuting
import TeachingKernel.Lib.Fifo
import TeachingKernel.Lib.FirstFit
import TeachingKernel.Lib.FlatMemory
import TeachingKernel.Lib.ForLoop
import TeachingKernel.Lib.FrameUses
import TeachingKernel.Lib.LineRegister
import TeachingKernel.Lib.Mmu
import TeachingKernel.Lib.Numerals
import TeachingKernel.Lib.PackedPairs
import TeachingKernel.Lib.PageSets
import TeachingKernel.Lib.PageTree
import TeachingKernel.Lib.Ring
import TeachingKernel.Lib.Runs
import TeachingKernel.Lib.Spans
import TeachingKernel.Lib.StackSlots
import TeachingKernel.Lib.WhileLoop
import TeachingKernel.Lib.Word
import TeachingKernel.Lib.WordLoop
import TeachingKernel.Lib.X86
import TeachingKernel.Lib.X86Calls
import TeachingKernel.Machine
import TeachingKernel.Paging.Access
import TeachingKernel.Paging.Agreement
import TeachingKernel.Paging.Boot
import TeachingKernel.Paging.Coherence
import TeachingKernel.Paging.Contents
import TeachingKernel.Paging.Demand
import TeachingKernel.Paging.Direct
import TeachingKernel.Paging.DirectHandlers
import TeachingKernel.Paging.DirectHistory
import TeachingKernel.Paging.DirectMemory
import TeachingKernel.Paging.Handlers
import TeachingKernel.Paging.History
import TeachingKernel.Paging.Legitimate
import TeachingKernel.Paging.ListPages
import TeachingKernel.Paging.MappedPages
import TeachingKernel.Paging.Model
import TeachingKernel.Paging.NestedFaults
import TeachingKernel.Paging.PoolCalls
import TeachingKernel.Paging.PoolTest
import TeachingKernel.Paging.Recursive
import TeachingKernel.Paging.RoundTrip
import TeachingKernel.Paging.Supply
import TeachingKernel.Paging.Window
import TeachingKernel.Switch.Dispatch
import TeachingKernel.Switch.Footprint
import TeachingKernel.Switch.Interrupted
import TeachingKernel.Switch.Model
import TeachingKernel.Switch.NewThread
import TeachingKernel.Switch.Restore
import TeachingKernel.Switch.RoundTrip
import TeachingKernel.Switch.Save
import TeachingKernel.Threads.Heap
import TeachingKernel.Threads.LinkedList
import TeachingKernel.Threads.ListRuns
import TeachingKernel.Threads.Rotation
import TeachingKernel.Threads.Scheduler
import TeachingKernel.Threads.Shutdown
import TeachingKernel.Timer.Clockwork
import TeachingKernel.Timer.Frequency
import TeachingKernel.Timer.IntervalTimer
import TeachingKernel.Timer.Model
import TeachingKernel.Timer.Wait
import TeachingKernel.Timer.Waveform
import TeachingKernel.VMPool.Alignment
import TeachingKernel.VMPool.Allocate
import TeachingKernel.VMPool.Chart
import TeachingKernel.VMPool.FirstFit
import TeachingKernel.VMPool.Isolation
import TeachingKernel.VMPool.List
import TeachingKernel.VMPool.Model
import TeachingKernel.VMPool.Regions
import TeachingKernel.VMPool.Registry
import TeachingKernel.VMPool.Release
import TeachingKernel.VMPool.Rounding
