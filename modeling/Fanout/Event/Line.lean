import Fanout.Event

/-! # Log lines of events

One line an event, with a level. Names and reasons are quoted, except the reason of an
exceeded grace period, which the relay itself words. A missing name or reason is `unknown`,
a missing identifier is blank.
-/
namespace Fanout

inductive Level where
  | error | warn | info | debug | trace
deriving DecidableEq, Repr

def Level.name : Level → String
  | .error => "ERROR"
  | .warn => "WARN"
  | .info => "INFO"
  | .debug => "DEBUG"
  | .trace => "TRACE"

namespace Event

def level (e : Event) : Level :=
  match e.kind with
  | .graceExceeded => .error
  | .messagePublished => .debug
  | k => if k.isFault then .warn else .info

def optionalCount : Option UInt32 → String
  | some n => "Some(" ++ n.toNat.repr ++ ")"
  | none => "None"

/-- The text of an event, with `idText` writing its identifier. -/
def line (idText : SubscriberId → String) (e : Event) : String :=
  let name := " subscriber=" ++ Text.quote (e.subscriber.getD "unknown")
  let reason := e.reason.getD "unknown"
  let quotedReason := " reason=" ++ Text.quote reason
  let id := " id=" ++ (e.id.map idText).getD ""
  match e.kind with
  | .subscriberRegistered => "[registered]" ++ name ++ id
  | .subscriberUnregistered => "[unregistered]" ++ name ++ id
  | .messagePublished => "[published] recipients=" ++ (e.recipients.getD 0).toNat.repr
  | .publishedWithoutSubscribers => "[no-subscribers]"
  | .sinkFailed => "[sink-failed]" ++ name ++ quotedReason
  | .sinkPanicked => "[sink-panicked]" ++ name ++ quotedReason
  | .sinkTimedOut => "[sink-timed-out]" ++ name ++ " timeout_ms=" ++ optionalCount e.timeoutMs
  | .sinkOverflow => "[sink-overflow]" ++ name ++ quotedReason
  | .sinkWorkerGone => "[sink-worker-gone]" ++ name ++ id
  | .shutdownRequested => "[shutdown-requested]"
  | .allDrainedWithin => "[all-drained-within-grace]"
  | .graceExceeded => "[grace-exceeded] " ++ reason

end Event

/-- The name of the observer that writes these lines. -/
def lineWriterName : String := "LogWriter"

end Fanout
