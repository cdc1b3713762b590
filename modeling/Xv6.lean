import Xv6.Log.Reserve
import Xv6.Log.Crash
import Xv6.Log.Lru
import Xv6.Log.Capacity
import Xv6.Fs.Capacity
import Xv6.Proc.Runs
import Xv6.Ftable.Runs
import Xv6.Itable.Machine
import Xv6.Itable.Disk
import Xv6.Itable.Runs
import Xv6.Virtio.Runs
import Xv6.Content.Flat
import Xv6.Content.DirRuns
import Xv6.Mkfs.WellFormed
import Xv6.Mkfs.Lookup
import Xv6.Vm.Fresh
import Xv6.Reads.Machine
import Xv6.Reads.Lost
import Xv6.Reads.Bounds
import Xv6.Trace.Machine
import Xv6.Trace.Runs
import Xv6.Console.Editor
import Xv6.Console.Machine
import Xv6.Console.Runs
import Xv6.Buffers.Machine
import Xv6.Buffers.Refine
import Xv6.Buffers.Later
import Xv6.Buffers.Failed
import Xv6.Lib.Path
import Xv6.Umalloc.Machine
import Xv6.Umalloc.Tiles
import Xv6.Umalloc.Free
import Xv6.Umalloc.Malloc
import Xv6.Umalloc.Runs
import Xv6.Shell.Machine
import Xv6.Shell.Total
import Xv6.Shell.Print
import Xv6.Shell.Parse
import Xv6.Shell.Words
import Xv6.Shared.Machine
import Xv6.Shared.Runs
import Xv6.Kalloc.Machine
import Xv6.Kalloc.Runs
import Xv6.Sv39.Machine
import Xv6.Sv39.Walk
import Xv6.Sv39.Runs
import Xv6.Vm.Ranges
import Xv6.Vm.Copyinstr
import Xv6.Lib.Gives
import Xv6.Lib.Tally
import Xv6.Vm.Ledger
import Xv6.Vm.Alloc
import Xv6.Vm.Grow
import Xv6.Vm.Whole
import Xv6.Vm.Uvmcopy
import Xv6.Fork.Machine
import Xv6.Fork.Runs
import Xv6.Namei.Machine
import Xv6.Namei.Path
import Xv6.Namei.Table
import Xv6.Namei.Runs
import Xv6.Exec.Machine
import Xv6.Vm.Load
import Xv6.Vm.Stack
import Xv6.Lib.Numeral
import Xv6.Printf.Machine
import Xv6.Grep.Machine
import Xv6.Grep.Patterns
import Xv6.Grep.Stream
import Xv6.Printf.Numbers
import Xv6.Shell.Runcmd
import Xv6.Sysinfo.Loadavg
import Xv6.Sysinfo.Nproc
import Xv6.Umalloc.Limits
import Xv6.Lib.Noted
import Xv6.Proc.Crew
import Xv6.Proc.Plain
import Xv6.Sleeplock.Machine
import Xv6.Sleeplock.Runs
import Xv6.Uart.Machine
import Xv6.Uart.Runs
import Xv6.Lib.Moves
import Xv6.Memory.Memmove
import Xv6.Spinlock.Machine
import Xv6.Spinlock.Programs
import Xv6.Spinlock.Runs
import Xv6.Exec.Commit
import Xv6.Exec.Runs
import Xv6.Exec.Whole
import Xv6.Sysfile.Calls
import Xv6.Vm.Spaces
import Xv6.Vm.Panics
import Xv6.Vm.Safety
import Xv6.Exec.Safety
import Xv6.Lib.Shares
import Xv6.Pages.Machine
import Xv6.Pages.Turns
import Xv6.Pages.Calls
import Xv6.Pages.Slots
import Xv6.Pages.Boot
import Xv6.Pages.Runs
import Xv6.Lib.Hierarchy
import Xv6.Links.Blocks
import Xv6.Links.Calls
import Xv6.Links.Machine
import Xv6.Links.Opens
import Xv6.Links.Owned
import Xv6.Links.Events
import Xv6.Links.Runs
import Xv6.Fs.Agree
import Xv6.Namei.Agree
import Xv6.Trace.Agree
import Xv6.Ftable.Agree
import Xv6.Proc.Agree
import Xv6.Reads.Agree
