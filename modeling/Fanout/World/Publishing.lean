import Fanout.World

/-! # Publishing

A message goes to every subscriber active at the call whose worker is still there and whose
queue has room. Whoever misses it is reported, and then how many got it.
-/
namespace Fanout.World

/-- Why a subscriber cannot take a message now. A worker that is gone counts first. -/
def refusal? (w : World) (id : SubscriberId) : Option SinkFault :=
  match w.subscriber? id with
  | some s =>
    if !s.live then some .workerGone
    else if s.isFull then some (.overflow s.capacity)
    else none
  | none => some .workerGone

def accept (w : World) (m : Message) (id : SubscriberId) : World :=
  (w.modifySubscriber id fun s => { s with queue := s.queue ++ [m] }).note (.accepted id m)

def reportDrop (r : Nat) (w : World) (drop : SubscriberId × SinkFault) : World :=
  let name := w.nameOf drop.1
  (w.trace (.dropped name drop.1 drop.2)).emit r (.fault name drop.1 drop.2)

def drops (w : World) (active : List SubscriberId) : List (SubscriberId × SinkFault) :=
  active.filterMap fun id => (w.refusal? id).map (id, ·)

def takers (w : World) (active : List SubscriberId) : List SubscriberId :=
  active.filter fun id => (w.refusal? id).isNone

def fanOut (w : World) (r : Nat) (active : List SubscriberId) (m : Message) : World :=
  let dropped := w.drops active
  let w := (w.takers active).foldl (accept · m) w
  let w := dropped.foldl (reportDrop r) w
  w.emit r (.published (active.length - dropped.length))

def publish (w : World) (r : Nat) (m : Message) : World :=
  match w.locked? r with
  | none => w
  | some relay =>
    if relay.closed then w.trace .publishIgnored
    else if relay.active.isEmpty then
      (w.trace .publishedToNobody).emit r ⟨.publishedWithoutSubscribers, []⟩
    else w.fanOut r relay.active m

theorem relayNames_foldl_accept (m : Message) (ids : List SubscriberId) (w : World) :
    (ids.foldl (accept · m) w).relayNames = w.relayNames := by
  induction ids generalizing w with
  | nil => rfl
  | cons id ids ih => exact ih _

theorem relayNames_foldl_reportDrop (r : Nat) (drops : List (SubscriberId × SinkFault))
    (w : World) : (drops.foldl (reportDrop r) w).relayNames = w.relayNames := by
  induction drops generalizing w with
  | nil => rfl
  | cons d drops ih => exact ih _

theorem relayNames_publish (w : World) (r : Nat) (m : Message) :
    (w.publish r m).relayNames = w.relayNames := by
  rw [publish]
  split
  · rfl
  · split
    · rfl
    · split
      · rfl
      · exact (relayNames_foldl_reportDrop ..).trans (relayNames_foldl_accept ..)

end Fanout.World
