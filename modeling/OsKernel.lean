import OsKernel.TerminalSwitch
import OsKernel.MemcpyLoops
import OsKernel.HaltClose
import OsKernel.ExitStatus
import OsKernel.SlotOwnership
import OsKernel.BaseShells
import OsKernel.CtrlC
import OsKernel.RtcActive
import OsKernel.RtcInterrupts
import OsKernel.TypeAhead
import OsKernel.TerminalIsolation
import OsKernel.TabBackspace
import OsKernel.UserBuffers
import OsKernel.ReadPreemption
import OsKernel.DirectoryListing
import OsKernel.ProgramLoad
import OsKernel.Printf
import OsKernel.Grep
import OsKernel.InterruptController
import OsKernel.Exceptions
import OsKernel.RoundRobin
