import Ape.Proofs.Atomic
import Ape.Proofs.Endpoints
import Ape.Proofs.Signals
import Ape.Proofs.Sleeps
import Ape.Proofs.TableRuns
import Ape.Proofs.Cow
import Ape.Proofs.FaultPerms
import Ape.Proofs.Search
import Ape.Proofs.Mremap
import Ape.Proofs.Forks
import Ape.Proofs.Brk
import Ape.Proofs.Segments
import Ape.Proofs.Mprotect
import Ape.Proofs.Rounding
import Ape.Proofs.Jobs
import Ape.Proofs.WaitSignals
import Ape.Proofs.WaitStatus
import Ape.Proofs.StopEvents
import Ape.Proofs.Positions
import Ape.Proofs.Cloexec
import Ape.Proofs.LowestFd
import Ape.Proofs.DirFds
import Ape.Proofs.PipeUndo
import Ape.Proofs.Dirents
import Ape.Proofs.Offsets
import Ape.Proofs.HostileImages
import Ape.Proofs.InitStack
import Ape.Proofs.ExecReset
import Ape.Proofs.PipeEof
import Ape.Proofs.Ledger
import Ape.Proofs.Remains
import Ape.Proofs.Unblockable
import Ape.Proofs.TtyEcho
import Ape.Proofs.TtyQueries
import Ape.Proofs.TtyLines
import Ape.Proofs.TtyOrder
import Ape.Proofs.TtyEdit
import Ape.Proofs.TtyCursor
import Ape.Proofs.HeaderReads
import Ape.Proofs.UserMemory
import Ape.Proofs.UserCopies
import Ape.Proofs.UserStrings
import Ape.Proofs.PagePool
import Ape.Proofs.PageTables
import Ape.Proofs.PageTableRuns
import Ape.Proofs.SplitPages
import Ape.Proofs.Ioctl
import Ape.Proofs.PipePaths
import Ape.Proofs.Polls
import Ape.Proofs.Actions
import Ape.Proofs.ExecArgs
import Ape.Proofs.Reboots
import Ape.Proofs.DemandPaging
import Ape.Proofs.OwnRecords
