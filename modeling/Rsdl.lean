import Rsdl.Progress
import Rsdl.FifoProofs
import Rsdl.MultiCpu
import Rsdl.QueueRefinement
import Rsdl.Termination
import Rsdl.Priofork
import Rsdl.Wakeup
import Rsdl.ProcCalls
import Rsdl.TreeRefinement
import Rsdl.Staircase
import Rsdl.MultiCpuTree
import Rsdl.Rotation
import Rsdl.ProcStates
