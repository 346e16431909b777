import Avr.GlobalClock

/-!
Contract: a group of machines and their coordinator as parties that exchange messages.

Owns:
- the state of a group: its nodes, the reports and releases under way, and the coordinator;
- the moves that the parties can make, one at a time and in any order;
- runs, which are lists of moves.

A node reports an arrival and blocks until it receives a release; after its last arrival it reports
that it has finished. The coordinator takes the oldest report and then sends the releases it owes,
each into a channel that holds one.
-/

namespace Avr.GlobalClock

def Report.node : Report → Nat
  | .arrived node | .finished node => node

structure Node where
  arrived : Nat
  released : Nat
  /-- Whether it has reported that it does not run anymore. -/
  finished : Bool
deriving DecidableEq, Repr

namespace Node

def new : Node := ⟨0, 0, false⟩

/-- Whether the node waits for the release that answers its last arrival. -/
def isBlocked (node : Node) : Bool :=
  node.released < node.arrived

/-- Whether the node runs on by itself. -/
def isFree (node : Node) : Bool :=
  !node.isBlocked && !node.finished

end Node

/-- The values of all nodes with that of one replaced. -/
def setAt {α : Type} (values : Nat → α) (node : Nat) (value : α) : Nat → α :=
  fun other => if other = node then value else values other

@[simp] theorem setAt_same {α : Type} (values : Nat → α) (node : Nat) (value : α) :
    setAt values node value node = value := by
  simp [setAt]

theorem setAt_other {α : Type} (values : Nat → α) {node other : Nat} (value : α)
    (different : other ≠ node) : setAt values node value other = values other := by
  simp [setAt, different]

structure System where
  nodes : Nat → Node
  /-- Reports on their way to the coordinator, the oldest first. -/
  reports : List Report
  coordinator : Coordinator
  /-- Nodes that the coordinator is about to release. -/
  due : List Nat
  releases : Nat → Nat

inductive Move where
  | arrive (node : Nat)
  | finish (node : Nat)
  | resume (node : Nat)
  /-- The coordinator takes a report. -/
  | collect
  /-- The coordinator sends a release that is due. -/
  | release
deriving DecidableEq, Repr

namespace System

def new (nodes : Nat) : System where
  nodes := fun _ => .new
  reports := []
  coordinator := .new nodes
  due := []
  releases := fun _ => 0

/-- Whether the coordinator is done: no node is left that could report. -/
def isDone (s : System) : Bool :=
  s.due.isEmpty && !s.coordinator.isActive

/-- Releases that a node was granted, whether they have reached it or not. -/
def granted (s : System) (node : Nat) : Nat :=
  (s.nodes node).released + s.releases node + s.due.count node

/-- The state after a move, if the move is possible. Node `i` arrives `arrivals[i]` times in all. -/
def move? (arrivals : List Nat) (s : System) : Move → Option System
  | .arrive i =>
    let node := s.nodes i
    if node.isFree ∧ node.arrived < arrivals.getD i 0 then
      some { s with
        nodes := setAt s.nodes i { node with arrived := node.arrived + 1 }
        reports := s.reports ++ [.arrived i] }
    else
      none
  | .finish i =>
    let node := s.nodes i
    if i < arrivals.length ∧ node.isFree ∧ node.arrived = arrivals.getD i 0 then
      some { s with
        nodes := setAt s.nodes i { node with finished := true }
        reports := s.reports ++ [.finished i] }
    else
      none
  | .resume i =>
    let node := s.nodes i
    if node.isBlocked ∧ 0 < s.releases i then
      some { s with
        nodes := setAt s.nodes i { node with released := node.released + 1 }
        releases := setAt s.releases i (s.releases i - 1) }
    else
      none
  | .collect =>
    match s.reports with
    | [] => none
    | report :: rest =>
      if s.due = [] ∧ s.coordinator.isActive then
        some { s with
          reports := rest
          coordinator := (s.coordinator.receive report).1
          due := (s.coordinator.receive report).2 }
      else
        none
  | .release =>
    match s.due with
    | [] => none
    | i :: rest =>
      if s.releases i = 0 then
        some { s with due := rest, releases := setAt s.releases i 1 }
      else
        none

/-- Make moves one after the other, if all of them are possible. -/
def run? (arrivals : List Nat) : List Move → System → Option System
  | [], s => some s
  | move :: rest, s => (s.move? arrivals move).bind (run? arrivals rest)

end System

end Avr.GlobalClock
