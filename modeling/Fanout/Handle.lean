import Fanout.SubscriberId
import Fanout.Text.Quoted

/-! # Handles

A handle names one subscriber and, unless its registration was refused, the relay that has it.
-/
namespace Fanout

structure Handle where
  id : SubscriberId
  name : String
  relay : Option Nat
deriving DecidableEq, Repr

def Handle.debug (idText : SubscriberId → String) (h : Handle) : String :=
  "SubscriptionHandle \x7b id: SubscriberId(" ++ idText h.id ++ "), name: " ++
    Text.quote h.name ++ " \x7d"

end Fanout
