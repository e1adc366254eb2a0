import WebTSan.VClock
import WebTSan.ClockFlow
import WebTSan.Execution
import WebTSan.Ownership
import WebTSan.Shadow
import WebTSan.Detector
import WebTSan.Run
import WebTSan.Clocks
import WebTSan.Access
import WebTSan.HappensBefore
import WebTSan.Detection
import WebTSan.NoFalsePositive
import WebTSan.NoMissedRace
import WebTSan.Publication
import WebTSan.SlotReuse
import WebTSan.Allocator
import WebTSan.Lifecycle
import WebTSan.SlotOwners
import WebTSan.RwLock
import WebTSan.Atomics
import WebTSan.ReadsFrom
import WebTSan.ReadModifyWrite
import WebTSan.RaceSites
import WebTSan.BufferReuse
import WebTSan.SyncObjects
import WebTSan.PendingRace
import WebTSan.RawTid
import WebTSan.ThreadIndex
import WebTSan.Messages
import WebTSan.Transducer
import WebTSan.FlatShadow
import WebTSan.Futex
import WebTSan.WaitLists
import WebTSan.NotifyWake
import WebTSan.LocalMachine
import WebTSan.Interleavings
import WebTSan.ByteHistory
import WebTSan.RangeAccess
import WebTSan.Growth
import WebTSan.Spacing
import WebTSan.BulkMemory
import WebTSan.Liftoff
import WebTSan.SyncAddress
import WebTSan.CallStack
import WebTSan.AtomicsBuiltins
import WebTSan.PublishingWrites
import WebTSan.HookCoverage
import WebTSan.WaitEntries
import WebTSan.RangeClearing
import WebTSan.StorePaths
import WebTSan.ThreadEnds
import WebTSan.ReportReentrance
import WebTSan.MessageDrops
import WebTSan.LockOrder
import WebTSan.DetectorLocks
import WebTSan.ConcurrentCalls
import WebTSan.ConcurrentRaces
import WebTSan.ConcurrentSites
import WebTSan.ConcurrentClearing
import WebTSan.ConcurrentPointers
import WebTSan.ConcurrentSerial
import WebTSan.Queue
import WebTSan.WakeOrder
import WebTSan.WakeCompletion
import WebTSan.AsyncWaits
import WebTSan.SlotRotation
import WebTSan.PointerRuns
