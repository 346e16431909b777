/-!
Contract: keeping several machines in step.

Owns:
- what nodes report to the coordinator, and what the coordinator answers;
- the count of global ticks;
- the schedule in which all nodes take turns.

A node reports an arrival each time its local timer fires and waits for a release. Once every node
that still runs has arrived, the coordinator ticks and releases all that wait. A node that finishes
leaves the group, so nobody waits for it.
-/

namespace Avr.GlobalClock

/-- What a node tells the coordinator. -/
inductive Report where
  /-- The local timer of the node fired. -/
  | arrived (node : Nat)
  /-- The node does not run anymore. -/
  | finished (node : Nat)
deriving DecidableEq, Repr

structure Coordinator where
  /-- Whether each node still runs. -/
  live : List Bool
  /-- Nodes that wait for a release, in order of arrival. -/
  waiting : List Nat
  ticks : Nat
deriving DecidableEq, Repr

namespace Coordinator

/-- The coordinator of a group in which every node runs. -/
def new (nodes : Nat) : Coordinator := ⟨List.replicate nodes true, [], 0⟩

def liveCount (c : Coordinator) : Nat :=
  c.live.count true

/-- Whether some node still runs, so that the coordinator waits for reports. -/
def isActive (c : Coordinator) : Bool :=
  c.live.contains true

def note (c : Coordinator) : Report → Coordinator
  | .arrived node => { c with waiting := c.waiting ++ [node] }
  | .finished node => { c with live := c.live.set node false }

/-- Whether everyone who runs is waiting. -/
def isFull (c : Coordinator) : Bool :=
  !c.waiting.isEmpty && c.liveCount ≤ c.waiting.length

/-- Take a report; the result tells which nodes are released. -/
def receive (c : Coordinator) (report : Report) : Coordinator × List Nat :=
  let c := c.note report
  if c.isFull then
    ({ c with waiting := [], ticks := c.ticks + 1 }, c.waiting)
  else
    (c, [])

/-- Take reports until no node runs anymore. -/
def collect (c : Coordinator) : List Report → Coordinator
  | [] => c
  | report :: rest => if c.isActive then (c.receive report).1.collect rest else c

end Coordinator

/-- What the nodes report in one round, if node `i` arrives `arrivals[i]` times in all: those that
still arrive do so, and those that arrived for the last time in the round before finish. -/
def roundReports (arrivals : List Nat) (round : Nat) : List Report :=
  arrivals.zipIdx.filterMap fun (total, node) =>
    if round < total then some (.arrived node)
    else if round = total then some (.finished node)
    else none

/-- The reports of all nodes when they take turns. -/
def turns (arrivals : List Nat) : List Report :=
  (List.range (arrivals.foldl max 0 + 1)).flatMap (roundReports arrivals)

/-- The number of global ticks of a group whose nodes arrive the given numbers of times. -/
def ticks (arrivals : List Nat) : Nat :=
  ((Coordinator.new arrivals.length).collect (turns arrivals)).ticks

/-- The period of a node's local timer in cycles of its own clock. -/
def localPeriod (cycles : Nat) : Nat :=
  max cycles 1

end Avr.GlobalClock
