import Fanout.World.Shutdown

/-! # Listening

A listener reads the bus for its observer, one event a step. The order to stop counts only
when nothing is left to read. Then the listener is leaving: it reads once more, without a word
about what it may have lost, and stops when nothing is there.
-/
namespace Fanout.World

def modifyListener (w : World) (r i : Nat) (f : Listener → Listener) : World :=
  w.modifyRelay r fun q => { q with listeners := q.listeners.modify i f }

def enterListener (w : World) (r i : Nat) (p : ListenerPhase) : World :=
  w.modifyListener r i fun l => { l with phase := p }

/-- The end of a call of an observer. The warning of a panic asks the observer for its name, and
only if that panics too the listener is gone. -/
def finishCall (w : World) (r i : Nat) (name : Naming) (panic : Option Panic) : World :=
  match panic, name with
  | none, _ => w.enterListener r i .receiving
  | some p, .given _ => (w.enterListener r i .receiving).note (.observerPanicked r i p)
  | some _, .panics _ => w.enterListener r i .crashed

def callObserver (w : World) (r i : Nat) (o : Observer) (e : Event) : World :=
  let w := w.note (.observed r i e)
  if o.panicsAtStart e then w.enterListener r i .crashed
  else if o.sleep e = 0 then w.finishCall r i o.name (o.panic e)
  else w.enterListener r i (.calling (w.now + o.sleep e) (o.panic e))

/-- A reader that has lost events goes on with the oldest one kept. The warning of it asks the
observer for its name, too. -/
def skipTo (w : World) (r i : Nat) (l : Listener) (count next : Nat) : World :=
  let v := w.modifyListener r i fun l => { l with next := next }
  if l.leaving then v
  else match l.observer.name with
    | .given _ => v.note (.missed r i count)
    | .panics _ => w.enterListener r i .crashed

def stepListener (w : World) (r i : Nat) : World :=
  match w.relay? r, w.listener? r i with
  | some relay, some l =>
    match l.phase with
    | .stopped | .crashed => w
    | .calling wake panic =>
      if wake ≤ w.now then w.finishCall r i l.observer.name panic else w
    | .receiving =>
      match relay.bus.read l.next with
      | .event e next =>
        (w.modifyListener r i fun l => { l with next := next }).callObserver r i l.observer e
      | .lagged count next => w.skipTo r i l count next
      | .nothing =>
        if l.leaving || w.busClosed r then w.enterListener r i .stopped
        else if relay.stopping then w.modifyListener r i fun l => { l with leaving := true }
        else w
  | _, _ => w

def listenerReady (w : World) (r i : Nat) : Bool :=
  match w.relay? r, w.listener? r i with
  | some relay, some l =>
    match l.phase with
    | .stopped | .crashed => false
    | .calling wake _ => wake ≤ w.now
    | .receiving =>
      l.next < relay.bus.size || l.leaving || relay.stopping || w.busClosed r
  | _, _ => false

end Fanout.World
