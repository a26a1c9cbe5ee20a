import LinuxBasedOS.Base.Word
import LinuxBasedOS.Base.Transition
import LinuxBasedOS.Base.Stores
import LinuxBasedOS.Base.PartialMap
import LinuxBasedOS.Base.Cursor
import LinuxBasedOS.Lib.CString
import LinuxBasedOS.Lib.Console
import LinuxBasedOS.Lib.ConsolePage
import LinuxBasedOS.Filesystem.Image
import LinuxBasedOS.Filesystem.Lookup
import LinuxBasedOS.Filesystem.ReadData
import LinuxBasedOS.Files.FileArray
import LinuxBasedOS.Files.ReadFs
import LinuxBasedOS.Files.ChunkedRead
import LinuxBasedOS.Files.Refinement
import LinuxBasedOS.Files.Listing
import LinuxBasedOS.Devices.Rtc
import LinuxBasedOS.Process.Kernel
import LinuxBasedOS.Process.Syscalls
import LinuxBasedOS.Process.Machine
import LinuxBasedOS.Process.Steps
import LinuxBasedOS.Process.History
import LinuxBasedOS.Process.PidAccounting
import LinuxBasedOS.Process.Chains
import LinuxBasedOS.Process.Refinement
import LinuxBasedOS.Process.Agreement
import LinuxBasedOS.Process.ChainRecord
import LinuxBasedOS.Process.RunQueue
import LinuxBasedOS.Process.Startup
import LinuxBasedOS.Process.TerminalOwnership
import LinuxBasedOS.Process.Parentage
import LinuxBasedOS.Process.TickRuns
import LinuxBasedOS.Process.ExitStatus
import LinuxBasedOS.Process.WriterTerminal
import LinuxBasedOS.Terminal.Keyboard
import LinuxBasedOS.Terminal.LineBuffer
import LinuxBasedOS.Terminal.Reader
import LinuxBasedOS.Terminal.BufferFrame
import LinuxBasedOS.Terminal.Output
import LinuxBasedOS.Terminal.HardwareCursor
import LinuxBasedOS.Terminal.LineRead
import LinuxBasedOS.Terminal.PendingLine
import LinuxBasedOS.Terminal.IndexRange
import LinuxBasedOS.Filesystem.FileContents
import LinuxBasedOS.Filesystem.ReadMemory
import LinuxBasedOS.Filesystem.BlockEntries
import LinuxBasedOS.Files.InodeSearch
import LinuxBasedOS.Files.DirectoryName
import LinuxBasedOS.Filesystem.Loader
import LinuxBasedOS.Terminal.Confinement
import LinuxBasedOS.Process.CommandLine
import LinuxBasedOS.Process.Arguments
import LinuxBasedOS.Terminal.LineEditor
import LinuxBasedOS.Terminal.Modifiers
import LinuxBasedOS.Terminal.RefusedRead
import LinuxBasedOS.Terminal.Echo
import LinuxBasedOS.Terminal.Scrolling
import LinuxBasedOS.Terminal.Printing
import LinuxBasedOS.Base.Cyclic
import LinuxBasedOS.Process.RoundRobin
import LinuxBasedOS.Devices.I8259
import LinuxBasedOS.Devices.RtcRate
import LinuxBasedOS.Filesystem.Memcpy
import LinuxBasedOS.Lib.Numbers
import LinuxBasedOS.Lib.Printf
import LinuxBasedOS.Base.LinkedList
import LinuxBasedOS.Programs.Blink
import LinuxBasedOS.Programs.BlinkScreen
import LinuxBasedOS.Programs.Animation
import LinuxBasedOS.Base.Lines
import LinuxBasedOS.Programs.Grep
import LinuxBasedOS.Programs.GrepRuns
import LinuxBasedOS.Base.Loops
import LinuxBasedOS.Programs.System
import LinuxBasedOS.Programs.Cat
import LinuxBasedOS.Programs.Ls
import LinuxBasedOS.Programs.GrepMain
import LinuxBasedOS.Programs.Shell
import LinuxBasedOS.Programs.Fish
import LinuxBasedOS.Programs.FishScreen
import LinuxBasedOS.Terminal.TypedLine
import LinuxBasedOS.Base.Blocks
import LinuxBasedOS.Process.Layout
import LinuxBasedOS.Devices.IrqMasks
import LinuxBasedOS.Base.Paging
import LinuxBasedOS.Process.Paging
import LinuxBasedOS.Process.Isolation
import LinuxBasedOS.Base.X86
import LinuxBasedOS.Process.Linkage
import LinuxBasedOS.Base.Bitfields
import LinuxBasedOS.Devices.Descriptors
import LinuxBasedOS.Base.InterruptController
import LinuxBasedOS.Devices.Interrupts
