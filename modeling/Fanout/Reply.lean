import Fanout.Bus
import Fanout.Config
import Fanout.Handle

/-! # Replies

What a call of a relay, made by the host or by a sink, comes back with.
-/
namespace Fanout

inductive Reply where
  | nothing
  | flag (b : Bool)
  | count (n : Nat)
  | done
  | cancelled
  | failed (e : RelayError)
  | panicked (info : String)
  | noRelay
  | noHandle
  | registered (name : String) (capacity : Option Nat) (active : Bool)
  | config (c : Config)
  | handle (h : Handle)
  | listing (subscribers : List (String × SubscriberId))
  | marks (ms : List Bus.Mark)
deriving Repr

/-- The result of a shutdown: nothing went wrong, or one error. -/
def Reply.ofShutdown : Option RelayError → Reply
  | none => .done
  | some e => .failed e

end Fanout
