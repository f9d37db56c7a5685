import Fanout.Duration

/-! # Configuration of a relay

Zero has a meaning of its own in each field: the bus keeps at least one event, no
delivery timeout at all, and a shutdown that does not wait.
-/
namespace Fanout

structure Config where
  busCapacity : Nat := 1024
  deliveryTimeout : Duration := .zero
  grace : Duration := .ofMillis 5000
deriving DecidableEq, Repr, Inhabited

namespace Config

def deliveryLimit (c : Config) : Option Duration :=
  if c.deliveryTimeout.nanoseconds = 0 then none else some c.deliveryTimeout

def clampedBusCapacity (c : Config) : Nat := max c.busCapacity 1

def debug (c : Config) : String :=
  "RelayConfig \x7b bus_capacity: " ++ c.busCapacity.repr ++ ", delivery_timeout: " ++
    c.deliveryTimeout.text ++ ", grace: " ++ c.grace.text ++ " \x7d"

end Config
end Fanout
