import Avr.Bench.Group
import Avr.Bench.SegmentTrial
import Avr.Isa.Assembly
import Avr.Proofs.Alu.Shift
import Avr.Proofs.Attachment.Fidelity
import Avr.Proofs.Automaton.Pending
import Avr.Proofs.Automaton.Times
import Avr.Proofs.Clock.Cancellation
import Avr.Proofs.Clock.Periodic
import Avr.Proofs.Clock.Prescaled
import Avr.Proofs.Clock.Progress
import Avr.Proofs.Clock.Split
import Avr.Proofs.Clock.Timeouts
import Avr.Proofs.Flash.Coherence
import Avr.Proofs.Flash.Image
import Avr.Proofs.Flash.Pauses
import Avr.Proofs.Interrupt.Consistency
import Avr.Proofs.Interrupt.FlagRegisters
import Avr.Proofs.Isa.Codec
import Avr.Proofs.Isa.Disassembly
import Avr.Proofs.Machine.Calls
import Avr.Proofs.Machine.Footprint
import Avr.Proofs.Machine.Priority
import Avr.Proofs.Machine.Residue
import Avr.Proofs.Machine.Return
import Avr.Proofs.Machine.Runs
import Avr.Proofs.Machine.Safety
import Avr.Proofs.Machine.Skip
import Avr.Proofs.Machine.Stop
import Avr.Proofs.Machine.Transparency
import Avr.Proofs.Machine.Waking
import Avr.Proofs.SelfProgramming.PageWrite
import Avr.Proofs.SelfProgramming.Awaited
import Avr.Proofs.GlobalClock.Turns
import Avr.Proofs.Machine.FastPath
import Avr.Proofs.Time.History
import Avr.Proofs.Time.Range
