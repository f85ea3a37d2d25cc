import VertexOS.Library.Words
import VertexOS.Library.BlockStore
import VertexOS.Library.Packing
import VertexOS.Library.Forest
import VertexOS.Library.Transitions
import VertexOS.Library.FreeList
import VertexOS.Library.Memory
import VertexOS.Fs.Device
import VertexOS.Fs.Format
import VertexOS.Fs.SimpleFs
import VertexOS.Fs.Metadata
import VertexOS.Fs.Transfer
import VertexOS.Fs.Extents
import VertexOS.Fs.FileContents
import VertexOS.Fs.Names
import VertexOS.Fs.Tree
import VertexOS.Fs.Calls
import VertexOS.Fs.Issued
import VertexOS.Fs.Reboot
import VertexOS.Fs.Commit
import VertexOS.Fs.Crash
import VertexOS.Fs.BootImage
import VertexOS.Vfs.Vfs
import VertexOS.Vfs.Effects
import VertexOS.Vfs.Descriptors
import VertexOS.Vfs.Cwd
import VertexOS.Mem.Heap
import VertexOS.Mem.Blocks
import VertexOS.Mem.BootInfo
import VertexOS.Mem.HeapRuns
import VertexOS.Exec.Elf
import VertexOS.Exec.ReadFile
import VertexOS.Exec.Segments
import VertexOS.Exec.Loader
import VertexOS.Exec.Safety
import VertexOS.Exec.Image
import VertexOS.Exec.Returns
import VertexOS.Library.Bitmap
import VertexOS.Mem.Pmm
import VertexOS.Mem.FrameRuns
import VertexOS.Mem.RealRam
import VertexOS.Mem.UsableMemory
import VertexOS.Mem.Multiboot
import VertexOS.Mem.Paging
import VertexOS.Mem.PageTables
import VertexOS.Mem.PageMap
import VertexOS.Net.Http
import VertexOS.Net.HttpStream
import VertexOS.Library.Programs
import VertexOS.Net.State
import VertexOS.Net.Rtl8139
import VertexOS.Net.RxRing
import VertexOS.Net.Transmit
import VertexOS.Net.Dhcp
import VertexOS.Net.Dns
import VertexOS.Net.Receive
import VertexOS.Net.Client
import VertexOS.Net.Stable
import VertexOS.Library.Histories
import VertexOS.Net.Receiver
import VertexOS.Net.Fetch
import VertexOS.Net.Wire
import VertexOS.Net.Lease
import VertexOS.Net.DhcpRuns
import VertexOS.Net.LeaseRuns
import VertexOS.Net.Outgoing
import VertexOS.Net.Dispatch
import VertexOS.Video.DoubleBuffer
import VertexOS.Task.Scheduler
import VertexOS.Fs.Paths
import VertexOS.Video.Sheet
import VertexOS.Mem.Mmu
import VertexOS.Mem.TablePlace
import VertexOS.Mem.BringUp
import VertexOS.Core.Commands
import VertexOS.Fs.Refusals
import VertexOS.Vfs.OpenFile
import VertexOS.Core.CopyFile
import VertexOS.Video.Display
import VertexOS.Video.Render
import VertexOS.Video.Events
import VertexOS.Video.Windows
import VertexOS.Video.NewTerminal
import VertexOS.Library.Layers
import VertexOS.Video.Pixels
import VertexOS.Video.PointerRuns
import VertexOS.Fs.Walk
import VertexOS.Vfs.Prompt
import VertexOS.Fs.Faults
import VertexOS.Fs.Bounds
import VertexOS.Vfs.OpenFails
import VertexOS.Fs.Turns
import VertexOS.Fs.WriteRange
import VertexOS.Fs.FailedWrites
import VertexOS.Fs.FlakyWrites
import VertexOS.Vfs.Written
import VertexOS.Task.RoundRobin
import VertexOS.Mem.Coalescing
import VertexOS.Library.SlotMap
import VertexOS.Mem.Shortfall
import VertexOS.Vfs.Environment
import VertexOS.Net.DnsNames
import VertexOS.Net.DnsReplies
import VertexOS.Library.Positional
import VertexOS.Net.Ipv4Text
import VertexOS.Net.UrlGrammar
import VertexOS.Library.OnesComplement
import VertexOS.Net.Checksums
import VertexOS.Net.Emitted
import VertexOS.Net.EmittedRuns
import VertexOS.Net.Echo
import VertexOS.Net.Ping
import VertexOS.Net.Timeouts
import VertexOS.Core.NetCommands
import VertexOS.Library.LineEditor
import VertexOS.Core.Cli
import VertexOS.Core.CliLines
import VertexOS.Core.Completion
import VertexOS.Core.Quoting
import VertexOS.Core.FileCommands
import VertexOS.Video.FillRect
import VertexOS.Drivers.Keyboard
import VertexOS.Drivers.Shift
import VertexOS.Library.Queues
import VertexOS.Drivers.KeyQueues
import VertexOS.Editor.Buffer
import VertexOS.Fs.Rewrites
import VertexOS.Fs.Appends
import VertexOS.Editor.Files
import VertexOS.Editor.Saves
import VertexOS.Editor.FailedSaves
import VertexOS.Editor.RoundTrip
import VertexOS.Video.Grid
import VertexOS.Video.CellAccess
import VertexOS.Video.CheckedDisplay
import VertexOS.Video.CheckedCalls
import VertexOS.Video.CellRuns
import VertexOS.Editor.Screen
import VertexOS.Editor.Session
import VertexOS.Editor.Drawing
import VertexOS.Editor.ScreenRuns
import VertexOS.Video.PrintNum
import VertexOS.Library.Loops
import VertexOS.Net.SkipName
import VertexOS.Editor.Text
import VertexOS.Editor.Movement
import VertexOS.Video.FontReads
import VertexOS.Video.Usable
import VertexOS.Video.KillButton
import VertexOS.Library.Assembly
import VertexOS.Task.Switch
import VertexOS.Task.Threads
import VertexOS.Task.Halts
import VertexOS.Drivers.Ata
import VertexOS.Drivers.AtaRuns
import VertexOS.Fs.Isolation
import VertexOS.Drivers.Pci
import VertexOS.Video.BootVideo
import VertexOS.Video.FramebufferMap
import VertexOS.Drivers.Interrupts
import VertexOS.Library.Interruptions
import VertexOS.Task.Interrupted
import VertexOS.Task.Disturbed
import VertexOS.Library.FileTree
import VertexOS.Fs.FileTree
import VertexOS.Vfs.Files
import VertexOS.Boot.Loader
