import Avr.Proofs.Machine.Background

/-!
Contract: accesses of a program to its machine keep two machines in accord.

Owns:
- what an accord has to withstand for that: outside objects that are read and written, registers and
  flags, the global interrupt flag, and what is stored in IO registers;
- accesses to IO registers, to the data space and to the stack as mirrors of themselves.

The two registers of a flag pair change together with their vectors, so an accord may depend on both.
-/

namespace Avr.Machine

open Avr.Io Avr.Isa Avr.Memory

variable {World : Type}

/-- The machine with other bytes in its data space, and other flags. -/
def compute (m : Machine World) (bytes : Array UInt8) (status : Status) : Machine World :=
  { m with data := { m.data with bytes }, status }

/-- The machine in which interrupts are allowed. -/
def allowed (m : Machine World) : Machine World :=
  { m with
    status := { m.status with i := true }
    interrupts := { m.interrupts with table := m.interrupts.table.markStale }
    innerLoop := false }

/-- The machine in which interrupts are forbidden. -/
def forbidden (m : Machine World) : Machine World :=
  { m with status := { m.status with i := false } }

/-- An accord that also withstands what the program of a machine does outside of IO registers. -/
structure Computing (env : Environment World) (A : Machine World → Machine World → Prop)
    (Twin : HandleList → HandleList → Prop) (Free : Nat → Prop) : Prop
    extends QuietAccord env A Twin Free where
  readOutside : ∀ {m n} handle segment address blank, A m n →
    (env.readOutside handle segment address blank m.world).1 =
        (env.readOutside handle segment address blank n.world).1 ∧
      A { m with world := (env.readOutside handle segment address blank m.world).2 }
        { n with world := (env.readOutside handle segment address blank n.world).2 }
  writeOutside : ∀ {m n} handle segment address value, A m n →
    A { m with world := env.writeOutside handle segment address value m.world }
      { n with world := env.writeOutside handle segment address value n.world }
  device : ∀ handle hook, hook.isInstrument = false →
    Action.Mirrors A (env.notify handle hook) (env.notify handle hook)
  readDevice : ∀ handle, Action.Mirrors A (env.readDevice handle) (env.readDevice handle)
  writeDevice : ∀ handle value,
    Attempt.Mirrors A (env.writeDevice handle value) (env.writeDevice handle value)
  readDeviceBit : ∀ handle bit,
    Action.Mirrors A (env.readDeviceBit handle bit) (env.readDeviceBit handle bit)
  writeDeviceBit : ∀ handle bit value,
    Attempt.Mirrors A (env.writeDeviceBit handle bit value) (env.writeDeviceBit handle bit value)
  compute : ∀ {m n} bytes status, A m n → status.i = n.status.i →
    A (m.compute bytes status) (n.compute bytes status)
  allow : ∀ {m n}, A m n → A m.allowed n.allowed
  forbid : ∀ {m n}, A m n → A m.forbidden n.forbidden

/-- Kinds of registers whose writes store a byte and do nothing else. -/
def storesOnly : Kind → Bool
  | .plain _ | .stackLow _ | .stackHigh _ => true
  | _ => false

/-- An accord that withstands everything that accesses to IO registers do. -/
structure Accesses (env : Environment World) (A : Machine World → Machine World → Prop)
    (Twin : HandleList → HandleList → Prop) (Free : Nat → Prop) : Prop
    extends Computing env A Twin Free where
  store : ∀ {m n} {register : Nat} {kind : Kind} value, A m n →
    n.io[register]?.map Register.kind = some kind → storesOnly kind = true →
    A (m.setIoStored register value) (n.setIoStored register value)
  stack : ∀ {m n} value, A m n → A (m.setStackPointer value) (n.setStackPointer value)
  extension : ∀ {m n} value, A m n →
    A (m.setIoStored m.part.extension value) (n.setIoStored n.part.extension value)
  unit : ∀ {m n} {register : Nat} value, A m n →
    n.io[register]?.map Register.kind = some (.device .selfProgramming) →
    Attempt.Agree A (writeSpmControl env value) (writeSpmControl env value) m n
  /-- Writing ones to a flag register clears the flags and unposts their vectors. -/
  flags : ∀ {m n} {register : Nat} {old : UInt8} {pair : FlagPair} value, A m n →
    n.io[register]?.map Register.kind = some (.flags old pair) →
    Attempt.Agree A
      (do
        modify fun m => m.setIoStored register (old &&& ~~~value)
        syncPosted env pair old (old &&& ~~~value) : Attempt World Unit)
      (do
        modify fun m => m.setIoStored register (old &&& ~~~value)
        syncPosted env pair old (old &&& ~~~value)) m n
  mask : ∀ {m n} {register : Nat} {old : UInt8} {pair : FlagPair} value, A m n →
    n.io[register]?.map Register.kind = some (.mask old pair) →
    Attempt.Agree A
      (do
        modify fun m => m.setIoStored register value
        syncEnabled env pair old value : Attempt World Unit)
      (do
        modify fun m => m.setIoStored register value
        syncEnabled env pair old value) m n
  /-- A dispatch clears the flag of its vector. -/
  acknowledge : ∀ {m n vector pair bit}, A m n →
    n.interrupts.notification? vector = some (.flag pair bit false) →
    Attempt.Agree A (setFlagBit env pair bit false) (setFlagBit env pair bit false) m n

section Pairs

variable {env : Environment World} {A : Machine World → Machine World → Prop}
  {Twin : HandleList → HandleList → Prop} {Free : Nat → Prop}

/-- All vectors of a pair may change at any time. -/
def FreePair (Free : Nat → Prop) (pair : FlagPair) : Prop :=
  ∀ bit vector, (bit, vector) ∈ pair.mapped → Free vector

/-- All vectors of the pairs that are installed may change at any time. -/
structure FreePairs (A : Machine World → Machine World → Prop) (Free : Nat → Prop) : Prop where
  flags : ∀ {m n} {register : Nat} {old pair}, A m n →
    n.io[register]?.map Register.kind = some (.flags old pair) → FreePair Free pair
  mask : ∀ {m n} {register : Nat} {old pair}, A m n →
    n.io[register]?.map Register.kind = some (.mask old pair) → FreePair Free pair
  told : ∀ {m n vector pair bit sticky}, A m n →
    n.interrupts.notification? vector = some (.flag pair bit sticky) → FreePair Free pair

theorem FreePairs.of_free (free : ∀ vector, Free vector) : FreePairs A Free where
  flags _ _ _ vector _ := free vector
  mask _ _ _ vector _ := free vector
  told _ _ _ vector _ := free vector

theorem mem_mapped_of_changed {pair : FlagPair} {old new : UInt8} {entry : Nat × Nat}
    (changed : entry ∈ pair.changed old new) : entry ∈ pair.mapped :=
  (List.mem_filter.mp changed).1

section Pair

variable (accord : QuietAccord env A Twin Free) {pair : FlagPair} (free : FreePair Free pair)
include accord free

theorem QuietAccord.mirrors_syncPosted (old new : UInt8) :
    Attempt.Mirrors A (syncPosted env pair old new) (syncPosted env pair old new) :=
  .forM _ fun (_, _) changed =>
    accord.mirrors_setPosted _ (free _ _ (mem_mapped_of_changed changed))

theorem QuietAccord.mirrors_syncEnabled (old new : UInt8) :
    Attempt.Mirrors A (syncEnabled env pair old new) (syncEnabled env pair old new) :=
  .forM _ fun (_, _) changed =>
    accord.mirrors_setEnabled _ (free _ _ (mem_mapped_of_changed changed))

/-- Only the flag register of the pair is stored to. -/
theorem QuietAccord.mirrors_setFlagBit
    (store : ∀ {m n} value, A m n →
      A (m.setIoStored pair.flagRegister value) (n.setIoStored pair.flagRegister value))
    (bit : Nat) (set : Bool) :
    Attempt.Mirrors A (setFlagBit env pair bit set) (setFlagBit env pair bit set) := by
  refine .getting fun m n same => ?_
  rw [(accord.akin same).stored?]
  split
  · exact .pure _
  · exact .bind (.modify fun _ _ => store _) fun _ => accord.mirrors_syncPosted free _ _

end Pair

/-- Nothing more is needed if the pairs are free and the unit may be written. -/
theorem Computing.accesses_of_freePairs (computing : Computing env A Twin Free)
    (unit : ∀ value, Attempt.Mirrors A (writeSpmControl env value) (writeSpmControl env value))
    (pairs : FreePairs A Free)
    (store : ∀ {m n} register value, A m n →
      A (m.setIoStored register value) (n.setIoStored register value)) :
    Accesses env A Twin Free where
  toComputing := computing
  store _ same _ _ := store _ _ same
  stack _ same := by
    rw [setStackPointer, setStackPointer, (computing.akin same).part]
    exact store _ _ (store _ _ same)
  extension _ same := by
    rw [(computing.akin same).part]
    exact store _ _ same
  unit value same _ := (unit value).agree _ _ same
  flags _ same installed :=
    (Attempt.Mirrors.bind (.modify fun _ _ => store _ _) fun _ =>
      computing.mirrors_syncPosted (pairs.flags same installed) _ _).agree _ _ same
  mask _ same installed :=
    (Attempt.Mirrors.bind (.modify fun _ _ => store _ _) fun _ =>
      computing.mirrors_syncEnabled (pairs.mask same installed) _ _).agree _ _ same
  acknowledge same told :=
    (computing.mirrors_setFlagBit (pairs.told same told) (store _) _ _).agree _ _ same

/-- The more so if every vector may change at any time and the unit does not matter. -/
theorem Computing.accesses (computing : Computing env A Twin Free) (unconcerned : Unconcerned A)
    (free : ∀ vector, Free vector)
    (store : ∀ {m n} register value, A m n →
      A (m.setIoStored register value) (n.setIoStored register value)) :
    Accesses env A Twin Free :=
  computing.accesses_of_freePairs
    (computing.mirrors_writeSpmControl (computing.mirrors_unschedule unconcerned.queue _)
      (fun _ => unconcerned.spm _) fun _ _ _ => free _) (.of_free free) store

/-- Nor is anything more needed of the background, but to withstand timeouts. -/
theorem Computing.background (computing : Computing env A Twin Free)
    (accord : Accord env A Twin Free) (unconcerned : Unconcerned A)
    (free : ∀ vector, Free vector) : Background env A Twin Free :=
  accord.background unconcerned computing.device fun _ _ _ => free _

end Pairs

/-! ### Registers, flags and memory -/

namespace Computing

variable {env : Environment World} {A : Machine World → Machine World → Prop}
  {Twin : HandleList → HandleList → Prop} {Free : Nat → Prop}
  (computing : Computing env A Twin Free)
include computing

theorem setBytes {m n : Machine World} (bytes : Array UInt8) (same : A m n) :
    A { m with data := { m.data with bytes } } { n with data := { n.data with bytes } } := by
  have left : m.compute bytes n.status = { m with data := { m.data with bytes } } := by
    rw [← (computing.akin same).status]
    rfl
  rw [← left]
  exact computing.compute bytes n.status same rfl

theorem setFlags {m n : Machine World} {status : Status} (same : A m n)
    (flag : status.i = n.status.i) : A { m with status } { n with status } := by
  have left : m.compute n.data.bytes status = { m with status } := by
    rw [← (computing.akin same).bytes]
    rfl
  rw [← left]
  exact computing.compute n.data.bytes status same flag

/-- A read of a segment, by whose fault alone the world may change. -/
theorem read {m n : Machine World} {s s' : Segment} (same : A m n) (segments : s.bare = s'.bare)
    (address : Nat) :
    (s.read env.toReporting address m.world).1 = (s'.read env.toReporting address n.world).1 ∧
      A { m with world := (s.read env.toReporting address m.world).2 }
        { n with world := (s'.read env.toReporting address n.world).2 } := by
  have bare (s : Segment) (world : World) :
      s.read env.toReporting address world = s.bare.read env.toReporting address world := rfl
  rw [bare s, bare s', segments]
  unfold Segment.read
  split
  · exact ⟨rfl, same⟩
  · split
    · exact computing.readOutside _ _ _ _ same
    · exact ⟨rfl, computing.note _ same⟩

theorem mirrors_readMemory (address : Nat) :
    Action.Mirrors A (readMemory env address) (readMemory env address) :=
  .answer (fun _ _ same => (computing.read same (computing.akin same).data address).1)
    fun _ _ same => (computing.read same (computing.akin same).data address).2

theorem mirrors_readFlash (address : Nat) :
    Action.Mirrors A (readFlash env address) (readFlash env address) :=
  .answer (fun _ _ same => (computing.read same (computing.akin same).flashSegment address).1)
    fun _ _ same => (computing.read same (computing.akin same).flashSegment address).2

theorem mirrors_writeMemory (address : Nat) (value : UInt8) :
    Action.Mirrors A (writeMemory env address value) (writeMemory env address value) := by
  refine .modify fun m n same => ?_
  have akin := computing.akin same
  simp only [Segment.write, akin.bytes]
  by_cases inside : address < n.data.bytes.size
  · simp only [if_pos inside]
    exact computing.setBytes _ same
  · have reporters : m.data.reporter = n.data.reporter :=
      congrArg (fun g => g.data.reporter) akin
    have names : m.data.name = n.data.name := congrArg (fun g => g.data.name) akin
    simp only [if_neg inside, reporters, names]
    cases n.data.reporter with
    | some reporter => exact computing.writeOutside _ _ _ _ same
    | none => exact computing.note _ same

theorem mirrors_enableInterrupts :
    Action.Mirrors A (enableInterrupts env) (enableInterrupts env) :=
  .bind (.modify fun _ _ => computing.allow) fun _ => computing.mirrors_notifyGlobal rfl

theorem mirrors_disableInterrupts :
    Action.Mirrors A (disableInterrupts env) (disableInterrupts env) :=
  .bind (.modify fun _ _ => computing.forbid) fun _ => computing.mirrors_notifyGlobal rfl

/-- The flags other than `I` are written first, so that what is left goes through the operations on
the global flag. -/
theorem mirrors_setStatus (value : UInt8) :
    Action.Mirrors A (setStatus env value) (setStatus env value) := by
  refine .gettingAt fun m n same => ?_
  dsimp only
  rw [(computing.akin same).status]
  have written : Action.Agree A
      (modify fun m => { m with status := { Status.ofByte value with i := n.status.i } } :
        Action World Unit)
      (modify fun m => { m with status := { Status.ofByte value with i := n.status.i } }) m n :=
    ⟨rfl, computing.setFlags same rfl⟩
  refine written.bind fun _ => Action.Mirrors.agree ?_
  split
  · exact computing.mirrors_enableInterrupts
  · split
    · exact computing.mirrors_disableInterrupts
    · exact .pure _

end Computing

/-! ### Watches of an access

A register without a wrapper is accessed like one whose list of watches is empty. -/

section Watches

variable {World : Type} (env : Environment World) (before : Hook)

def around {α : Type} (watches : HandleList) (after : α → Hook) (act : Action World α) :
    Action World α := do
  notifyAll env watches before
  let value ← act
  notifyAll env watches (after value)
  return value

def aroundAttempt (watches : HandleList) (after : Hook) (act : Attempt World Unit) :
    Attempt World Unit := do
  notifyAll env watches before
  act
  notifyAll env watches after

theorem aroundAttempt_nil (after : Hook) (act : Attempt World Unit) :
    aroundAttempt env before [] after act = act := by
  funext m
  change (do act; pure () : Attempt World Unit).run m = act.run m
  rw [Attempt.run_bind]
  rcases act.run m with ⟨fault | value, next⟩ <;> rfl

variable (register bit : Nat)

theorem readIo_eq :
    readIo env register = (do
      let watches := ((← get).ioWatches? register).getD []
      around env (.beforeIoRead register) watches (.afterIoRead register)
        (readUnwatched env register)) :=
  bind_congr fun m => by cases m.ioWatches? register <;> rfl

theorem readIoBit_eq :
    readIoBit env register bit = (do
      let watches := ((← get).ioWatches? register).getD []
      around env (.beforeIoBitRead register bit) watches (.afterIoBitRead register bit)
        (readBitUnwatched env register bit)) :=
  bind_congr fun m => by cases m.ioWatches? register <;> rfl

theorem writeIo_eq (value : UInt8) :
    writeIo env register value = (do
      let watches := ((← get).ioWatches? register).getD []
      aroundAttempt env (.beforeIoWrite register value) watches (.afterIoWrite register value)
        (writeUnwatched env register value)) := by
  refine bind_congr fun m => ?_
  cases m.ioWatches? register with
  | none => exact (aroundAttempt_nil env _ _ _).symm
  | some watches => rfl

theorem writeIoBit_eq (value : Bool) :
    writeIoBit env register bit value = (do
      let watches := ((← get).ioWatches? register).getD []
      aroundAttempt env (.beforeIoBitWrite register bit value) watches
        (.afterIoBitWrite register bit value) (writeBitUnwatched env register bit value)) := by
  refine bind_congr fun m => ?_
  cases m.ioWatches? register with
  | none => exact (aroundAttempt_nil env _ _ _).symm
  | some watches => rfl

end Watches

/-! ### IO registers -/

namespace Accesses

variable {env : Environment World} {A : Machine World → Machine World → Prop}
  {Twin : HandleList → HandleList → Prop} {Free : Nat → Prop}
  (accesses : Accesses env A Twin Free)
include accesses

theorem mirrors_readIoDevice (device : Device) :
    Action.Mirrors A (Machine.readDevice env device) (Machine.readDevice env device) := by
  cases device with
  | selfProgramming =>
      refine .getting fun m n same => ?_
      rw [(accesses.akin same).spmControl]
      exact .pure _
  | outside handle => exact accesses.readDevice handle

theorem mirrors_readIoDeviceBit (bit : Nat) (device : Device) :
    Action.Mirrors A (Machine.readDeviceBit env bit device)
      (Machine.readDeviceBit env bit device) := by
  cases device with
  | selfProgramming =>
      refine .getting fun m n same => ?_
      rw [(accesses.akin same).spmControl]
      exact .pure _
  | outside handle => exact accesses.readDeviceBit handle bit

theorem agree_writeIoDevice {m n : Machine World} {register : Nat} {device : Device}
    (value : UInt8) (same : A m n)
    (installed : n.io[register]?.map Register.kind = some (.device device)) :
    Attempt.Agree A (Machine.writeDevice env value device) (Machine.writeDevice env value device)
      m n := by
  cases device with
  | selfProgramming => exact accesses.unit value same installed
  | outside handle => exact (accesses.writeDevice handle value).agree _ _ same

theorem agree_writeIoDeviceBit {m n : Machine World} {register : Nat} {device : Device}
    (bit : Nat) (value : Bool) (same : A m n)
    (installed : n.io[register]?.map Register.kind = some (.device device)) :
    Attempt.Agree A (Machine.writeDeviceBit env bit value device)
      (Machine.writeDeviceBit env bit value device) m n := by
  cases device with
  | selfProgramming =>
      refine Attempt.Agree.getting ?_
      rw [(accesses.akin same).spmControl]
      exact accesses.unit _ same installed
  | outside handle => exact (accesses.writeDeviceBit handle bit value).agree _ _ same

theorem mirrors_readUnwatched (register : Nat) :
    Action.Mirrors A (readUnwatched env register) (readUnwatched env register) := by
  refine .getting fun m n same => ?_
  rw [(accesses.akin same).kind, (accesses.akin same).status]
  split
  · exact .bind (accesses.mirrors_note _) fun _ => .pure _
  · exact .pure _
  · exact accesses.mirrors_readIoDevice _
  · exact .pure _

theorem mirrors_readBitUnwatched (register bit : Nat) :
    Action.Mirrors A (readBitUnwatched env register bit) (readBitUnwatched env register bit) := by
  refine .getting fun m n same => ?_
  rw [(accesses.akin same).kind]
  split
  · exact accesses.mirrors_readIoDeviceBit bit _
  · exact .bind (accesses.mirrors_readUnwatched register) fun _ => .pure _

theorem mirrors_writeReserved (register : Nat) (value : UInt8) :
    Attempt.Mirrors A (writeReserved env register value) (writeReserved env register value) := by
  refine .getting fun m n same => ?_
  rw [(accesses.akin same).settings]
  split
  · exact .throw _
  · exact .lift (accesses.mirrors_note _)

theorem mirrors_writeUnwatched (register : Nat) (value : UInt8) :
    Attempt.Mirrors A (writeUnwatched env register value) (writeUnwatched env register value) := by
  refine .gettingAt fun m n same => ?_
  rw [(accesses.akin same).kind]
  split
  case h_1 => exact (Attempt.Mirrors.throw _).agree _ _ same
  case h_2 kind => exact ⟨rfl, accesses.store _ same kind rfl⟩
  case h_3 kind => exact ⟨rfl, accesses.store _ same kind rfl⟩
  case h_4 kind => exact ⟨rfl, accesses.store _ same kind rfl⟩
  case h_5 => exact (Attempt.Mirrors.lift (accesses.mirrors_setStatus value)).agree _ _ same
  case h_6 kind => exact accesses.flags value same kind
  case h_7 kind => exact accesses.mask value same kind
  case h_8 => exact (accesses.mirrors_writeReserved register value).agree _ _ same
  case h_9 kind => exact accesses.agree_writeIoDevice value same kind

theorem mirrors_writeBitUnwatched (register bit : Nat) (value : Bool) :
    Attempt.Mirrors A (writeBitUnwatched env register bit value)
      (writeBitUnwatched env register bit value) := by
  refine .gettingAt fun m n same => ?_
  rw [(accesses.akin same).kind]
  split
  case h_1 => exact (Attempt.Mirrors.throw _).agree _ _ same
  case h_2 =>
    split
    · exact (accesses.mirrors_writeUnwatched register _).agree _ _ same
    · exact (Attempt.Mirrors.pure _).agree _ _ same
  case h_3 kind => exact accesses.agree_writeIoDeviceBit bit value same kind
  case h_4 =>
    exact (Attempt.Mirrors.bind (.lift (accesses.mirrors_readUnwatched register)) fun _ =>
      accesses.mirrors_writeUnwatched register _).agree _ _ same

theorem mirrors_around {α : Type} {act : Action World α} {before : Hook} {after : α → Hook}
    {watches watches' : HandleList} (mirrors : Action.Mirrors A act act)
    (first : before.isInstrument = true) (last : ∀ value, (after value).isInstrument = true)
    (twin : Twin watches watches') :
    Action.Mirrors A (around env before watches after act)
      (around env before watches' after act) :=
  .bind (accesses.instruments _ first twin) fun _ => .bind mirrors fun value =>
    .bind (accesses.instruments _ (last value) twin) fun _ => .pure _

theorem mirrors_aroundAttempt {act : Attempt World Unit} {before after : Hook}
    {watches watches' : HandleList} (mirrors : Attempt.Mirrors A act act)
    (first : before.isInstrument = true) (last : after.isInstrument = true)
    (twin : Twin watches watches') :
    Attempt.Mirrors A (aroundAttempt env before watches after act)
      (aroundAttempt env before watches' after act) :=
  .bind (.lift (accesses.instruments _ first twin)) fun _ => .bind mirrors fun _ =>
    .lift (accesses.instruments _ last twin)

theorem mirrors_readIo (register : Nat) :
    Action.Mirrors A (readIo env register) (readIo env register) := by
  rw [readIo_eq]
  exact .getting fun m n same =>
    accesses.mirrors_around (accesses.mirrors_readUnwatched register) rfl (fun _ => rfl)
      (accesses.twin same fun machine => (machine.ioWatches? register).getD [])

theorem mirrors_readIoBit (register bit : Nat) :
    Action.Mirrors A (readIoBit env register bit) (readIoBit env register bit) := by
  rw [readIoBit_eq]
  exact .getting fun m n same =>
    accesses.mirrors_around (accesses.mirrors_readBitUnwatched register bit) rfl (fun _ => rfl)
      (accesses.twin same fun machine => (machine.ioWatches? register).getD [])

theorem mirrors_writeIo (register : Nat) (value : UInt8) :
    Attempt.Mirrors A (writeIo env register value) (writeIo env register value) := by
  rw [writeIo_eq]
  exact .getting fun m n same =>
    accesses.mirrors_aroundAttempt (accesses.mirrors_writeUnwatched register value) rfl rfl
      (accesses.twin same fun machine => (machine.ioWatches? register).getD [])

theorem mirrors_writeIoBit (register bit : Nat) (value : Bool) :
    Attempt.Mirrors A (writeIoBit env register bit value)
      (writeIoBit env register bit value) := by
  rw [writeIoBit_eq]
  exact .getting fun m n same =>
    accesses.mirrors_aroundAttempt (accesses.mirrors_writeBitUnwatched register bit value) rfl rfl
      (accesses.twin same fun machine => (machine.ioWatches? register).getD [])

/-! ### The data space and the stack -/

theorem mirrors_readData (address : UInt16) :
    Action.Mirrors A (readData env address) (readData env address) := by
  refine .getting fun m n same => ?_
  have watches := accesses.twin same fun machine =>
    (machine.data.watchesAt address.toNat).getD []
  have rest (value : UInt8) := accesses.instruments (.afterRead address value) rfl watches
  refine .bind (accesses.instruments _ rfl watches) fun _ => .getting fun m n same => ?_
  rw [(accesses.akin same).ioIndex?]
  split
  · exact .bind (accesses.mirrors_readIo _) fun value => .bind (rest value) fun _ => .pure _
  · exact .bind (accesses.mirrors_readMemory _) fun value => .bind (rest value) fun _ => .pure _

theorem mirrors_writeData (address : UInt16) (value : UInt8) :
    Attempt.Mirrors A (writeData env address value) (writeData env address value) := by
  refine .getting fun m n same => ?_
  have watches := accesses.twin same fun machine =>
    (machine.data.watchesAt address.toNat).getD []
  have rest := accesses.instruments (.afterWrite address value) rfl watches
  refine .bind (.lift (accesses.instruments _ rfl watches)) fun _ => .getting fun m n same => ?_
  rw [(accesses.akin same).ioIndex?]
  split
  · exact .bind (accesses.mirrors_writeIo _ _) fun _ => .lift rest
  · exact .bind (.lift (accesses.mirrors_writeMemory _ _)) fun _ => .lift rest

theorem mirrors_push (value : UInt8) : Attempt.Mirrors A (push env value) (push env value) := by
  refine .getting fun m n same => ?_
  rw [(accesses.akin same).stackPointer]
  exact .bind (accesses.mirrors_writeData _ _) fun _ => .modify fun _ _ => accesses.stack _

theorem mirrors_pop : Action.Mirrors A (pop env) (pop env) := by
  refine .getting fun m n same => ?_
  rw [(accesses.akin same).stackPointer]
  exact .bind (.modify fun _ _ => accesses.stack _) fun _ => accesses.mirrors_readData _

theorem mirrors_pushReturn (word : Nat) :
    Attempt.Mirrors A (pushReturn env word) (pushReturn env word) :=
  .bind (accesses.mirrors_push _) fun _ => accesses.mirrors_push _

theorem mirrors_popReturn : Action.Mirrors A (popReturn env) (popReturn env) :=
  .bind accesses.mirrors_pop fun _ => .bind accesses.mirrors_pop fun _ => .pure _

end Accesses

end Avr.Machine
