import Fanout.Console

/-! # Reports

After each command the host is told what happened since the one before. Entries that carry
a subscriber are put in order of registration wherever they stand next to each other; the
order in which tasks ran at one moment so leaves no trace.
-/
namespace Fanout

/-- Sorts every longest run of ranked neighbours, keeping entries of one rank in order. -/
def sortRuns {α : Type} (rank : α → Option Nat) (l : List α) : List α :=
  (l.splitBy fun a b => (rank a).isSome && (rank b).isSome).flatMap fun run =>
    run.mergeSort fun a b => (rank a).getD 0 ≤ (rank b).getD 0

/-- Collects entries under their keys, keys in order of first use. -/
def groupByKey {α : Type} (l : List (String × α)) : List (String × List α) :=
  (l.map (·.1)).eraseDups.map fun k => (k, (l.filter (·.1 == k)).map (·.2))

namespace Bus

def Mark.rank : Mark → Option Nat
  | .event e => e.id.map (·.serial)
  | _ => none

end Bus

structure Report where
  reply : Reply
  time : Nat
  events : List (String × List Bus.Mark)
  deliveries : List (String × List (Nat × Row))
  observed : List (String × List (Observer × Event))
  relayTrace : List Trace
  observerTraces : List (String × List Trace)

namespace Note

def row? (w : World) : Note → Option (String × (Nat × Row))
  | .row id time line => some (w.keyOf id, (time, line))
  | _ => none

def observed? (w : World) : Note → Option (String × (Observer × Event))
  | .observed r i e => (w.observer? r i).map fun o => (o.key, (o, e))
  | _ => none

def relayTrace? : Note → Option Trace
  | .traced t => some t
  | _ => none

/-- Lines about an observer stand under its name. -/
def observerTrace? (w : World) : Note → Option (String × Trace)
  | .missed r i count =>
    ((w.observer? r i).bind (·.name.given?)).map fun name => (name, .observerLagged name count)
  | .observerPanicked r i p =>
    ((w.observer? r i).bind (·.name.given?)).map fun name => (name, .observerPanicked name p.info)
  | _ => none

end Note

namespace Console

def readTaps (c : Console) : Console × List (String × List Bus.Mark) :=
  let read := c.taps.map fun (name, x) => (name, c.world.receive x)
  ({ c with taps := read.map fun (name, r) => (name, r.2) },
    (read.map fun (name, r) => (name, sortRuns Bus.Mark.rank r.1)).filter (!·.2.isEmpty))

def sortReply : Reply → Reply
  | .marks ms => .marks (sortRuns Bus.Mark.rank ms)
  | r => r

def report (c : Console) (since : Nat) (reply : Reply) : Console × Report :=
  let notes := (c.world.journal.extract since c.world.journal.size).toList
  let (c, events) := c.readTaps
  (c, {
    reply := sortReply reply
    time := c.world.now
    events := events
    deliveries := groupByKey (notes.filterMap (Note.row? c.world))
    observed := (groupByKey (notes.filterMap (Note.observed? c.world))).map fun (key, es) =>
      (key, sortRuns (fun e => e.2.id.map (·.serial)) es)
    relayTrace := sortRuns (fun t => t.id?.map (·.serial)) (notes.filterMap Note.relayTrace?)
    observerTraces := groupByKey (notes.filterMap (Note.observerTrace? c.world)) })

def performReported (c : Console) (k : Command) : Console × Report :=
  let since := c.world.journal.size
  let (c, reply) := c.perform k
  c.report since reply

/-- A whole session, with one report a command. -/
def session (c : Console) : List Command → List (World × Report)
  | [] => []
  | k :: rest =>
    let (c, report) := c.performReported k
    (c.world, report) :: c.session rest

end Console
end Fanout
