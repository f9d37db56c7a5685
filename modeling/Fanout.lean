import Fanout.Console.Moves
import Fanout.Console.Report
import Fanout.Proofs.Bare
import Fanout.Proofs.Building
import Fanout.Proofs.Circulation
import Fanout.Proofs.Detachment
import Fanout.Proofs.Draining
import Fanout.Proofs.Ends
import Fanout.Proofs.Faults
import Fanout.Proofs.Fifo
import Fanout.Proofs.FirstShutdown
import Fanout.Proofs.Flushing
import Fanout.Proofs.Grace
import Fanout.Proofs.Grammar
import Fanout.Proofs.Handles
import Fanout.Proofs.Isolation
import Fanout.Proofs.Listeners
import Fanout.Proofs.Locks
import Fanout.Proofs.LogLines
import Fanout.Proofs.Losses
import Fanout.Proofs.Numbering
import Fanout.Proofs.Observing
import Fanout.Proofs.Printing
import Fanout.Proofs.Quiet
import Fanout.Proofs.Receivers
import Fanout.Proofs.Registering
import Fanout.Proofs.Removal
import Fanout.Proofs.Replay
import Fanout.Proofs.Returning
import Fanout.Proofs.Ring
import Fanout.Proofs.SameBare
import Fanout.Proofs.Staffing
import Fanout.Proofs.Timeouts
import Fanout.Proofs.Undisturbed
import Fanout.Proofs.Walks
import Fanout.Proofs.Wording
import Fanout.Value.Reader
