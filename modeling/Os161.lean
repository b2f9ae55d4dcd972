import Os161.Thread.OutOfMemory
import Os161.Thread.Semaphore
import Os161.Thread.Bypass
import Os161.Thread.Wakeup
import Os161.Kern.Copyinout
import Os161.Kern.UioExact
import Os161.Kern.QueueRuns
import Os161.Kern.ArrayRuns
import Os161.Kern.BitmapRuns
import Os161.Kern.Menu
import Os161.Sfs.FileIo
import Os161.Vm.Isolation
import Os161.Lib.Linked
import Os161.Vm.Kheap
import Os161.Vm.KheapInv
import Os161.Vm.KheapAlloc
import Os161.Vm.KheapFree
import Os161.Vm.KheapRuns
import Os161.Syscall.File
import Os161.Syscall.Syscall
import Os161.Syscall.Convention
import Os161.Syscall.Process
import Os161.Syscall.Access
import Os161.Syscall.Position
import Os161.Syscall.Transfers
import Os161.Syscall.Confine
import Os161.Syscall.Fork
import Os161.Dev.ConInput
import Os161.Dev.ConOutput
import Os161.Dev.LhdProtocol
import Os161.Dev.Lamebus
import Os161.Asst1.Bowls
import Os161.Libc.Atoi
import Os161.Libc.Snprintf
import Os161.Libc.Memmove
import Os161.Vfs.Devices
import Os161.Vfs.References
import Os161.Vfs.Conservation
import Os161.Vm.Tlb
import Os161.Exec.Loadelf
import Os161.Exec.Segments
import Os161.Exec.UserMemory
import Os161.Exec.LoadSafety
import Os161.Exec.LoadCorrect
import Os161.Syscall.Returns
import Os161.Sfs.Truncate
import Os161.Sfs.TruncateExact
import Os161.Syscall.FirstFit
import Os161.Syscall.Close
import Os161.Syscall.Seek
import Os161.Vfs.Frame
import Os161.Syscall.Open
import Os161.Sfs.FileEnd
import Os161.Sfs.Mksfs
import Os161.Sfs.EmptyWrites
import Os161.Sfs.Dir
import Os161.Vfs.Getdevice
import Os161.Vm.TlbRoom
