import Fanout.Event.Line

/-! # Trace lines

What a relay, its workers and its listeners write to the trace, beside the events.
-/
namespace Fanout

inductive Trace where
  | registered (name : String) (id : SubscriberId)
  | registrationIgnored (name : String)
  | unregistered (name : String) (id : SubscriberId)
  | unregisterIgnored (id : SubscriberId)
  | publishIgnored
  | publishedToNobody
  | dropped (name : String) (id : SubscriberId) (fault : SinkFault)
  | contained (name : String) (id : SubscriberId) (fault : SinkFault)
  | workerStopped (name : String) (id : SubscriberId)
  | observerLagged (observer : String) (skipped : Nat)
  | observerPanicked (observer info : String)
deriving DecidableEq, Repr

namespace Trace

def level : Trace → Level
  | .workerStopped .. => .trace
  | .observerLagged .. | .observerPanicked .. => .warn
  | _ => .debug

def text : Trace → String
  | .registered .. => "subscriber registered"
  | .registrationIgnored _ => "relay closed; registration ignored"
  | .unregistered .. => "subscriber unregistered"
  | .unregisterIgnored _ => "unregister of unknown or removed subscriber ignored"
  | .publishIgnored => "relay closed; publish ignored"
  | .publishedToNobody => "no subscribers; publish is a no-op"
  | .dropped .. => "message dropped"
  | .contained .. => "delivery fault contained"
  | .workerStopped .. => "worker stopped"
  | .observerLagged .. => "observer lagged behind relay events"
  | .observerPanicked .. => "observer panicked"

def id? : Trace → Option SubscriberId
  | .registered _ id | .unregistered _ id | .unregisterIgnored id | .dropped _ id _
  | .contained _ id _ | .workerStopped _ id => some id
  | _ => none

def subscriber? : Trace → Option String
  | .registered name _ | .registrationIgnored name | .unregistered name _ | .dropped name _ _
  | .contained name _ _ | .workerStopped name _ => some name
  | _ => none

def fault? : Trace → Option SinkFault
  | .dropped _ _ f | .contained _ _ f => some f
  | _ => none

def observer? : Trace → Option String
  | .observerLagged o _ | .observerPanicked o _ => some o
  | _ => none

def fields (idText : SubscriberId → String) (t : Trace) : List (String × String) :=
  let field (key : String) (v : Option String) : List (String × String) :=
    (v.map (key, ·)).toList
  field "subscriber" t.subscriber? ++ field "id" (t.id?.map idText) ++
    field "fault" (t.fault?.map SinkFault.label) ++ field "observer" t.observer? ++
    match t with
    | .observerLagged _ skipped => [("skipped", skipped.repr)]
    | .observerPanicked _ info => [("info", info)]
    | _ => []

end Trace
end Fanout
