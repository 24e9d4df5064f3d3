import Clumoove.Proofs.PackCodec
import Clumoove.Proofs.Lifecycle
import Clumoove.Proofs.Selection
import Clumoove.Proofs.Stranding
import Clumoove.Proofs.Checks
import Clumoove.Proofs.Convergence
import Clumoove.Proofs.Quiescence
import Clumoove.Proofs.Deletion
import Clumoove.Proofs.Overwrite
import Clumoove.Proofs.SyncTasks
import Clumoove.Proofs.IncompleteSource
import Clumoove.Proofs.StoredStream
import Clumoove.Proofs.Replacement
import Clumoove.Proofs.Moves
import Clumoove.Proofs.TerminalStates
import Clumoove.Proofs.Announcements
import Clumoove.Proofs.Scheduled
import Clumoove.Proofs.SecondFactor
import Clumoove.Proofs.Lockout
import Clumoove.Proofs.OneTime
import Clumoove.Proofs.Revocation
import Clumoove.Proofs.Administrators
import Clumoove.Proofs.Egress
import Clumoove.Proofs.StoredBaseline
import Clumoove.Proofs.DirectoryCleanup
import Clumoove.Proofs.Digests
import Clumoove.Proofs.Recorded
import Clumoove.Proofs.Roots
import Clumoove.Proofs.Counters
import Clumoove.Proofs.Suspension
import Clumoove.Proofs.References
import Clumoove.Proofs.Streams
import Clumoove.Proofs.Paging
import Clumoove.Proofs.Hashers
import Clumoove.Proofs.Selections
import Clumoove.Proofs.DirCache
import Clumoove.Proofs.KeyedMutexes
