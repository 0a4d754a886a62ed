import GeekOS.Library.Run
import GeekOS.Library.Execution
import GeekOS.Library.StableInsert
import GeekOS.Library.Result
import GeekOS.Library.DoublyLinked
import GeekOS.Library.ObjectHeap
import GeekOS.Library.Numeral
import GeekOS.Library.Buffer
import GeekOS.Library.Threads
import GeekOS.Library.RingBuffer
import GeekOS.Library.CString
import GeekOS.Library.Segment
import GeekOS.Memory.Regions
import GeekOS.Memory.Scan
import GeekOS.Memory.Alloc
import GeekOS.Memory.Paging
import GeekOS.Vm.Pages
import GeekOS.Blockdev.Lba
import GeekOS.Blockdev.Device
import GeekOS.Blockdev.Sync
import GeekOS.Blockdev.Completion
import GeekOS.Blockdev.Pager
import GeekOS.Blockdev.Ramdisk
import GeekOS.Dev.Registry
import GeekOS.Dev.Registration
import GeekOS.Pfat.Super
import GeekOS.Pfat.Instance
import GeekOS.Pfat.Root
import GeekOS.Vfs.Refcounts
import GeekOS.Vfs.Lookups
import GeekOS.Vfs.Mounts
import GeekOS.Vfs.Directories
import GeekOS.Vfs.PathLookup
import GeekOS.Vfs.Drivers
import GeekOS.Thread.ProcessModel
import GeekOS.Thread.RunqueueOrder
import GeekOS.Thread.QueueLinks
import GeekOS.Kernel.TimeSlice
import GeekOS.Kernel.Arrival
import GeekOS.Kernel.Statistics
import GeekOS.Kernel.FiveStates
import GeekOS.Kernel.OnePlace
import GeekOS.Kernel.Sorted
import GeekOS.Kernel.Wakeups
import GeekOS.Kernel.Lifecycle
import GeekOS.Kernel.Waking
import GeekOS.Kernel.Workqueue
import GeekOS.Kernel.Condition
import GeekOS.Kernel.Simulation
import GeekOS.Kernel.Fairness
import GeekOS.Kernel.MainMenu
import GeekOS.Game.Peterson
import GeekOS.Game.PetersonProgress
import GeekOS.Game.TicTacToe
import GeekOS.Game.Join
import GeekOS.Game.Poets
import GeekOS.Console.Screen
import GeekOS.Console.Cursor
import GeekOS.Console.Printf
import GeekOS.Workqueue.Refinement
import GeekOS.Keyboard.Readers
import GeekOS.Keyboard.Handler
import GeekOS.Lists.Contents
import GeekOS.Heap.Run
import GeekOS.Heap.Threads
import GeekOS.Cpu.Switching
import GeekOS.Cpu.Dispatch
