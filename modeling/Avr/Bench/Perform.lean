import Avr.Bench.Perform.Core
import Avr.Bench.Perform.Execution
import Avr.Bench.Perform.Instruments
import Avr.Bench.Perform.Peripherals
import Avr.Bench.Perform.Time

/-!
Contract: performing any operation of a bench.

Owns:
- the choice among the kinds of operations;
- definition of scripts.
-/

namespace Avr.Bench

def define (who : String) (scripts : List (String × Script Operation)) (world : World) : World :=
  scripts.foldl (fun world (hook, script) => world.setScript who hook script) world

def Operation.perform (env : Environment World) : Operation → Play Answer
  | .registers op => op.perform env
  | .data op => op.perform env
  | .flash op => op.perform env
  | .io op => op.perform env
  | .interrupts op => op.perform env
  | .clock op => op.perform env
  | .run op => op.perform env
  | .probes op => op.perform
  | .stateMachines op => op.perform env
  | .define who scripts => do
    modifyWorld (Bench.define who scripts)
    return .nothing

end Avr.Bench
