import Avr.Bench.Journal
import Avr.Bench.Monitor
import Avr.Bench.Names
import Avr.Bench.Operation
import Avr.Time.Prescaler

/-!
Contract: the world of named objects in which a bench drives its machine.

Owns:
- the objects that handles stand for, and the names by which operations find them;
- the journal, and which notices are entered into it;
- the scripts of named objects, and how often they still perform their operations.

A recorder is made when its name is first used. All other objects are made by operations, and a
new object takes over the name of one before it.
-/

namespace Avr.Bench

/-- A byte that stands behind an IO register. -/
structure DeviceState where
  spec : DeviceSpec
  value : UInt8
  /-- Whether an access is under way. -/
  busy : Bool
deriving Repr

inductive Object where
  /-- Enters every call into the journal and performs its script. -/
  | recorder (name : String)
  /-- Receives accesses outside of a segment; gives reads its own value if it has one. -/
  | reporter (name : String) (value : Option UInt8)
  | device (state : DeviceState)
  | monitor (monitor : Monitor)
  /-- Tells a periodic event or a timeout apart from others. -/
  | token
  /-- Counts its firings. -/
  | timer
deriving Repr

structure World where
  /-- The rank up to which notices are entered into the journal. -/
  verbosity : Nat
  journal : Array Entry
  objects : Array Object
  recorders : Names Handle
  monitors : Names Handle
  /-- Events that can be cancelled by name. -/
  events : Names Time.Event
  /-- Scripts by object, then by hook. -/
  scripts : Names (Names (Script Operation))
  pairs : Names Io.FlagPair
  prescalers : Names Time.Prescaler
  stateMachines : Names Nat
  /-- Whether the contents of SRAM have ever been left undefined. -/
  undefinedFill : Bool
  timerFirings : Nat

namespace World

/-- A world without objects. -/
def new (verbosity : Nat) : World where
  verbosity := verbosity
  journal := #[]
  objects := #[]
  recorders := .empty
  monitors := .empty
  events := .empty
  scripts := .empty
  pairs := .empty
  prescalers := .empty
  stateMachines := .empty
  undefinedFill := false
  timerFirings := 0

/-! ### Journal -/

def enter (world : World) (entry : Entry) : World :=
  { world with journal := world.journal.push entry }

/-- Enter a notice, unless it matters too little. -/
def enterNotice (notice : Notice) (world : World) : World :=
  if notice.severity.rank ≤ world.verbosity then world.enter (.notice notice) else world

/-- The entries so far, which are gone afterwards. -/
def takeJournal (world : World) : List Entry × World :=
  (world.journal.toList, { world with journal := #[] })

/-! ### Objects -/

def object? (world : World) (h : Handle) : Option Object :=
  world.objects[h.id]?

def setObject (world : World) (h : Handle) (object : Object) : World :=
  { world with objects := world.objects.setIfInBounds h.id object }

/-- Add an object under a handle of its own. -/
def addObject (object : Object) (world : World) : World × Handle :=
  ({ world with objects := world.objects.push object }, ⟨world.objects.size⟩)

/-- The recorder of a name, made if there is none yet. -/
def recorder (who : String) (world : World) : World × Handle :=
  match world.recorders.get? who with
  | some h => (world, h)
  | none =>
    let (world, h) := world.addObject (.recorder who)
    ({ world with recorders := world.recorders.put who h }, h)

/-- The instruction probe of a name: a monitor if there is one, or else the recorder. -/
def probe (who : String) (world : World) : World × Handle :=
  match world.monitors.get? who with
  | some h => (world, h)
  | none => world.recorder who

/-- The event of a name: one that was made to be cancelled, or else the recorder's. -/
def event (who : String) (world : World) : World × Time.Event :=
  match world.events.get? who with
  | some event => (world, event)
  | none =>
    let (world, h) := world.recorder who
    (world, .outside h)

/-! ### Scripts -/

def script? (world : World) (who hook : String) : Option (Script Operation) :=
  (world.scripts.get? who).bind fun scripts => scripts.get? hook

def setScript (who : String) (world : World) (hook : String) (script : Script Operation) : World :=
  let scripts := (world.scripts.get? who).getD .empty
  { world with scripts := world.scripts.put who (scripts.put hook script) }

/-- The script to perform for a call, and the script that is left for later calls. -/
def spend (script : Script Operation) : Script Operation × Script Operation :=
  match script.times with
  | none => (script, script)
  | some 0 => ({ script with lines := [] }, script)
  | some (more + 1) => (script, { script with times := some more })

/-- The script for one call. -/
def takeScript (who hook : String) (world : World) : World × Script Operation :=
  match world.script? who hook with
  | none => (world, ⟨[], none, false⟩)
  | some script =>
    let (now, later) := spend script
    (world.setScript who hook later, now)

/-! ### Reports -/

/-- What a bench does with notices and with accesses outside of a segment. -/
def reporting : Reporting World where
  note := enterNotice
  readOutside h segment address blank world :=
    match world.object? h with
    | some (.reporter who value) =>
      (value.getD blank, world.enter (.readOutside who segment address blank))
    | _ => (blank, world)
  writeOutside h segment address value world :=
    match world.object? h with
    | some (.reporter who _) => world.enter (.writeOutside who segment address value)
    | _ => world

end World

end Avr.Bench
