import Ldd3.Base.Blocks
import Ldd3.Base.Cells
import Ldd3.Base.Fifo
import Ldd3.Base.Heap
import Ldd3.Base.Overlay
import Ldd3.Base.Progress
import Ldd3.Base.Ring
import Ldd3.Base.Runs
import Ldd3.Base.Sections
import Ldd3.Base.Steps
import Ldd3.Base.Tasks
import Ldd3.Base.Trails
import Ldd3.Base.Turns
import Ldd3.Base.Words
import Ldd3.Scullb.Ring
import Ldd3.Scullb.Fifo
import Ldd3.Scullb.Space
import Ldd3.Scullb.Tasks
import Ldd3.Scullb.Wakeup
import Ldd3.Scullb.Turns
import Ldd3.Scullb.Progress
import Ldd3.Scullb.Select
import Ldd3.Scull.Device
import Ldd3.Scull.Chain
import Ldd3.Scull.Tree
import Ldd3.Scull.Calls
import Ldd3.Scull.Alloc
import Ldd3.Scull.Failure
import Ldd3.Scull.Store
import Ldd3.Scull.Offsets
import Ldd3.Scull.Ownership
import Ldd3.Scull.Footprint
import Ldd3.Scull.Refusal
import Ldd3.Scull.Bounds
import Ldd3.Scull.RoundTrip
import Ldd3.Scull.Tasks
import Ldd3.Access.SingleOpen
import Ldd3.Access.Owner
import Ldd3.Access.Wakeup
import Ldd3.Block.Bio
import Ldd3.Block.Range
import Ldd3.Block.Queue
import Ldd3.Block.Sbull
import Ldd3.Block.Tasks
import Ldd3.Block.Races
import Ldd3.Interrupt.Fin
import Ldd3.Interrupt.Faults
import Ldd3.Interrupt.Pointers
import Ldd3.Interrupt.Tasks
import Ldd3.Interrupt.Turns
import Ldd3.Pres.Tid
import Ldd3.Pres.Device
import Ldd3.Pres.Commands
import Ldd3.Pres.Rollback
import Ldd3.Pres.Effects
import Ldd3.Pres.Sessions
import Ldd3.Pres.Runs
import Ldd3.Pres.Access
import Ldd3.RwBlock.Copies
import Ldd3.RwBlock.Reads
import Ldd3.RwBlock.Ring
import Ldd3.RwBlock.Tasks
import Ldd3.Time.Callback
import Ldd3.Time.Timer
import Ldd3.Time.TimerOld
