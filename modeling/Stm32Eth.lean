import Stm32Eth.Lib.Transition
import Stm32Eth.Lib.Linked
import Stm32Eth.Lib.Ledger
import Stm32Eth.Lib.EdgeLatch
import Stm32Eth.Lib.Blocks
import Stm32Eth.Lib.Framing
import Stm32Eth.Lib.Extent
import Stm32Eth.Lib.RecursiveMutex
import Stm32Eth.Lib.BoundedQueue
import Stm32Eth.Lib.Holders
import Stm32Eth.Lib.Thumb
import Stm32Eth.Lib.LinkerScript
import Stm32Eth.Rx.LinkChain
import Stm32Eth.Rx.Machine
import Stm32Eth.Rx.Ownership
import Stm32Eth.Rx.Wakeup
import Stm32Eth.Rx.Memory
import Stm32Eth.Rx.Frames
import Stm32Eth.Sys.Kernel
import Stm32Eth.Sys.Mailbox
import Stm32Eth.Sys.Semaphore
import Stm32Eth.Sys.Objects
import Stm32Eth.Sys.NetconnSem
import Stm32Eth.Sys.CoreLock
import Stm32Eth.Sys.Protect
import Stm32Eth.Rx.Delivery
import Stm32Eth.Rx.Statements
import Stm32Eth.Rx.Preemption
import Stm32Eth.Rx.Progress
import Stm32Eth.Tx.Output
import Stm32Eth.Rx.Forward
import Stm32Eth.Tx.Tasks
import Stm32Eth.Tx.Locked
import Stm32Eth.Link.State
import Stm32Eth.Link.Boot
import Stm32Eth.Link.Windows
import Stm32Eth.Heap.Sbrk
import Stm32Eth.Startup.Reset
import Stm32Eth.Startup.Delay
import Stm32Eth.Startup.Layout
