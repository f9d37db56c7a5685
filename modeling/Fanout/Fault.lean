import Fanout.Duration
import Fanout.Text.Quoted

/-! # Errors and faults

Three causes of trouble, kept apart: errors of a relay reach its host, errors of a sink
end one delivery, and faults are what a relay reports about a delivery that went wrong.
Each has a stable label, a text for people and a text that shows how it was built.
-/
namespace Fanout

inductive RelayError where
  | noRuntime
  | notAnObject (found : String)
  | graceExceeded (grace : Duration) (pending : Nat)
deriving DecidableEq, Repr

namespace RelayError

def label : RelayError → String
  | .noRuntime => "relay_no_runtime"
  | .notAnObject _ => "relay_not_an_object"
  | .graceExceeded .. => "relay_grace_exceeded"

def message : RelayError → String
  | .noRuntime => "no tokio runtime available to spawn subscriber workers"
  | .notAnObject found => "message payload must be a JSON object, got " ++ found
  | .graceExceeded grace pending =>
    "shutdown timeout " ++ grace.text ++ " exceeded; " ++ pending.repr ++ " worker(s) cancelled"

def debug : RelayError → String
  | .noRuntime => "NoRuntime"
  | .notAnObject found => "NotAnObject \x7b found: " ++ Text.quote found ++ " \x7d"
  | .graceExceeded grace pending =>
    "GraceExceeded \x7b grace: " ++ grace.text ++ ", pending: " ++ pending.repr ++ " \x7d"

end RelayError

inductive SinkError where
  | fail (error : String)
  | closed
deriving DecidableEq, Repr

namespace SinkError

def label : SinkError → String
  | .fail _ => "sink_failed"
  | .closed => "sink_closed"

def message : SinkError → String
  | .fail error => "delivery failed: " ++ error
  | .closed => "sink closed"

def debug : SinkError → String
  | .fail error => "Fail \x7b error: " ++ Text.quote error ++ " \x7d"
  | .closed => "Closed"

end SinkError

inductive SinkFault where
  | failed (error : SinkError)
  | panicked (info : String)
  | timedOut (timeout : Duration)
  | overflow (capacity : Nat)
  | workerGone
deriving DecidableEq, Repr

namespace SinkFault

def label : SinkFault → String
  | .failed error => error.label
  | .panicked _ => "sink_panicked"
  | .timedOut _ => "sink_timed_out"
  | .overflow _ => "sink_overflow"
  | .workerGone => "sink_worker_gone"

def reason : SinkFault → String
  | .failed (.fail error) => "error: " ++ error
  | .failed .closed => "closed"
  | .panicked info => "panic: " ++ info
  | .timedOut timeout => "timeout: " ++ timeout.text
  | .overflow capacity => "overflow: queue full (capacity " ++ capacity.repr ++ ")"
  | .workerGone => "worker gone"

def message : SinkFault → String
  | .failed error => "sink error: " ++ error.message
  | .panicked info => "sink panicked: " ++ info
  | .timedOut timeout => "sink timed out after " ++ timeout.text
  | .overflow capacity => "message dropped: queue full (capacity " ++ capacity.repr ++ ")"
  | .workerGone => "message dropped: delivery worker gone"

def debug : SinkFault → String
  | .failed error => "Failed(" ++ error.debug ++ ")"
  | .panicked info => "Panicked \x7b info: " ++ Text.quote info ++ " \x7d"
  | .timedOut timeout => "TimedOut \x7b timeout: " ++ timeout.text ++ " \x7d"
  | .overflow capacity => "Overflow \x7b capacity: " ++ capacity.repr ++ " \x7d"
  | .workerGone => "WorkerGone"

/-- The error behind a fault, if a sink returned one. -/
def source? : SinkFault → Option SinkError
  | .failed error => some error
  | _ => none

end SinkFault
end Fanout
