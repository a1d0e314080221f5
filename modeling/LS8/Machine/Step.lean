import LS8.Machine
import LS8.Operation

/-!
# One step

A step fetches the opcode at the program counter and the two bytes behind it, resolves them to an
operation and performs it. All checks come before the first change, so a fault leaves registers,
memory and program counter as they were and halts the machine. An undefined opcode is a fault or is
passed over, as configured. A halted machine does nothing.
-/

namespace LS8

/-- What a step did. -/
inductive Outcome where
  | executed (i : Instruction)
  /-- The machine had halted before. -/
  | halted
  | skipped (opcode pc : UInt8)
deriving DecidableEq, Repr

namespace Machine

variable {σ : Type}

/-- Moves the stack pointer down by one cell and stores there the byte that the registers then
give. -/
def pushByte (m : Machine σ) (value : Registers → UInt8) : Machine σ :=
  let registers := m.registers.lowerSp
  { m with registers, memory := m.memory.write registers.sp (value registers) }

def top (m : Machine σ) : UInt8 :=
  m.memory.read m.registers.sp

/-- Carries an operation out. `next` is the address behind the instruction. Only the output can
refuse its part, and then nothing but the sink has changed. -/
def perform [OutputSink σ] (m : Machine σ) (next : UInt8) :
    Operation → Except IoError Unit × Machine σ
  | .load r value => (.ok (), { m with registers := m.registers.set r value, pc := next })
  | .print r =>
    match OutputSink.emit (m.registers.get r) m.sink with
    | (.ok (), sink) =>
      let stats := { m.stats with emitted := m.stats.emitted + 1 }
      (.ok (), { m with sink, stats, pc := next })
    | (.error e, sink) => (.error e, { m with sink })
  | .halt => (.ok (), { m with halted := true })
  | .compute op r s =>
    let value := op.eval (m.registers.get r) (m.registers.get s)
    (.ok (), { m with registers := m.registers.set r value, pc := next })
  | .push r => (.ok (), { m.pushByte (·.get r) with pc := next })
  | .pop r => (.ok (), { m with registers := (m.registers.set r m.top).raiseSp, pc := next })
  | .call r =>
    let m := m.pushByte fun _ => next
    (.ok (), { m with pc := m.registers.get r })
  | .ret => (.ok (), { m with registers := m.registers.raiseSp, pc := m.top })

/-- Halts the machine over a fault of a defined instruction. -/
def fail (m : Machine σ) (i : Instruction) (fault : Fault) : Report σ Outcome :=
  ⟨.error fault, { m with halted := true }, [.faulted m.pc i fault]⟩

/-- Meets an undefined opcode as configured. -/
def meetUndefined (m : Machine σ) (opcode : UInt8) : Report σ Outcome :=
  match m.config.unknownInstruction with
  | .halt =>
    ⟨.error (.unknownInstruction opcode m.pc), { m with halted := true },
      [.undefinedHalt opcode m.pc]⟩
  | .skip =>
    let next := m.pc + encodedLength opcode
    ⟨.ok (.skipped opcode m.pc),
      { m with pc := next, stats := { m.stats with skipped := m.stats.skipped + 1 } },
      [.undefinedSkip opcode m.pc next]⟩

/-- Executes a defined instruction with its operand bytes. -/
def execute [OutputSink σ] (m : Machine σ) (i : Instruction) (a b : UInt8) : Report σ Outcome :=
  match Operation.resolve i a b with
  | .error index => m.fail i (.invalidRegister index m.pc)
  | .ok operation =>
    match m.perform (m.pc + i.size) operation with
    | (.error e, after) => after.fail i (.output e)
    | (.ok (), after) =>
      ⟨.ok (.executed i), { after with stats := after.stats.record i },
        if i = .hlt then [.halted m.pc] else []⟩

/-- The event that shows the machine before a step, where the configuration asks for it. -/
def traceEvents (m : Machine σ) : List Event :=
  if m.config.traceInstructions then [.trace m.traceLine] else []

/-- Executes one instruction, unless the machine has halted. -/
def step [OutputSink σ] (m : Machine σ) : Report σ Outcome :=
  if m.halted then ⟨.ok .halted, m, []⟩
  else
    let counted := { m with stats := { m.stats with steps := m.stats.steps + 1 } }
    let opcode := m.fetch 0
    Report.after m.traceEvents <|
      match Instruction.decode opcode with
      | some i => counted.execute i (m.fetch 1) (m.fetch 2)
      | none => counted.meetUndefined opcode

theorem step_of_halted [OutputSink σ] {m : Machine σ} (h : m.halted = true) :
    m.step = ⟨.ok .halted, m, []⟩ := by
  simp [step, h]

/-- Computes on two registers given by index, into the first, as the instruction with the opcode
would; the program counter stays. -/
def compute (m : Machine σ) (opcode a b : UInt8) : Except Fault (Machine σ) :=
  match Operation.register a, Operation.register b with
  | .error index, _ => .error (.invalidRegister index m.pc)
  | .ok _, .error index => .error (.invalidRegister index m.pc)
  | .ok r, .ok s =>
    match Arithmetic.execute opcode (m.registers.get r) (m.registers.get s) with
    | .error fault => .error fault
    | .ok value => .ok { m with registers := m.registers.set r value }

end Machine

end LS8
