import LS8.Proofs.Step

/-!
# Completed operations

A machine computes with its registers, memory and program counter, its core. What an operation
makes of the core depends on nothing else (`Core.perform`), and beside the core a completed
operation only counts itself, hands at most one value to the output, and may halt the machine
(`Machine.Completes`). A step that reports an executed instruction completed an operation of it
(`exists_completes`), and a running machine completes the operation at its program counter unless
the output refuses a value (`completes_of_operation`).
-/

namespace LS8

/-- What a machine computes with. -/
@[ext] structure Core where
  registers : Registers
  memory : Memory
  pc : UInt8
deriving DecidableEq

namespace Core

/-- The core after an operation, which goes on behind its instruction unless it jumps. -/
def perform (c : Core) (op : Operation) : Core :=
  let next := c.pc + op.instruction.size
  match op with
  | .load r value => { c with registers := c.registers.set r value, pc := next }
  | .print _ => { c with pc := next }
  | .halt => c
  | .compute op r s =>
    let value := op.eval (c.registers.get r) (c.registers.get s)
    { c with registers := c.registers.set r value, pc := next }
  | .push r =>
    let registers := c.registers.lowerSp
    ⟨registers, c.memory.write registers.sp (registers.get r), next⟩
  | .pop r =>
    let value := c.memory.read c.registers.sp
    { c with registers := (c.registers.set r value).raiseSp, pc := next }
  | .call r =>
    let registers := c.registers.lowerSp
    ⟨registers, c.memory.write registers.sp next, registers.get r⟩
  | .ret => { c with registers := c.registers.raiseSp, pc := c.memory.read c.registers.sp }

/-- The value that an operation hands to the output. -/
def printed (c : Core) : Operation → Option UInt8
  | .print r => some (c.registers.get r)
  | _ => none

end Core

def Stats.completed (s : Stats) (i : Instruction) : Stats :=
  { s with
    steps := s.steps + 1
    emitted := s.emitted + if i = Instruction.prn then 1 else 0 }.record i

namespace Machine

variable {σ : Type}

def core (m : Machine σ) : Core :=
  ⟨m.registers, m.memory, m.pc⟩

variable [OutputSink σ]

/-- A step completes the operation. -/
structure Completes (m : Machine σ) (op : Operation) : Prop where
  running : m.halted = false
  operation : m.operation? = some op
  result : m.step.result = .ok (.executed op.instruction)
  core : m.step.machine.core = m.core.perform op
  config : m.step.machine.config = m.config
  halted : m.step.machine.halted = decide (op = .halt)
  stats : m.step.machine.stats = m.stats.completed op.instruction
  quiet : m.core.printed op = none → m.step.machine.sink = m.sink
  accepted : ∀ v, m.core.printed op = some v →
    OutputSink.emit v m.sink = (.ok (), m.step.machine.sink)

theorem perform_ok {m done : Machine σ} {op : Operation}
    (h : m.perform (m.pc + op.instruction.size) op = (.ok (), done)) :
    done.core = m.core.perform op ∧ done.config = m.config
      ∧ done.halted = (m.halted || decide (op = .halt))
      ∧ done.stats = { m.stats with
          emitted := m.stats.emitted + if op.instruction = Instruction.prn then 1 else 0 }
      ∧ (m.core.printed op = none → done.sink = m.sink)
      ∧ ∀ v, m.core.printed op = some v → OutputSink.emit v m.sink = (.ok (), done.sink) := by
  cases op
  case print r =>
    rcases hemit : OutputSink.emit (m.registers.get r) m.sink with ⟨_ | _, sink⟩ <;>
      simp only [perform, hemit, Prod.mk.injEq, reduceCtorEq, false_and, true_and] at h
    subst h
    simp [core, Core.perform, Core.printed, Operation.instruction, hemit]
  case compute o r s =>
    cases h
    cases o <;> simp [core, Core.perform, Core.printed, Operation.instruction,
      Arithmetic.instruction]
  all_goals
    cases h
    simp [core, Core.perform, Core.printed, Operation.instruction, pushByte, top]

theorem completes_of_perform {m done : Machine σ} {i : Instruction} {op : Operation}
    (hrun : m.halted = false) (hdec : Instruction.decode (m.fetch 0) = some i)
    (hres : Operation.resolve i (m.fetch 1) (m.fetch 2) = .ok op)
    (hperf : m.counted.perform (m.pc + i.size) op = (.ok (), done))
    (heq : m.step = ⟨.ok (.executed i), { done with stats := done.stats.record i },
      m.traceEvents ++ if i = .hlt then [.halted m.pc] else []⟩) :
    m.Completes op := by
  obtain rfl := Operation.instruction_of_resolve hres
  obtain ⟨hcore, hconfig, hhalted, hstats, hquiet, haccepted⟩ := perform_ok hperf
  have hmachine : m.step.machine = { done with stats := done.stats.record op.instruction } := by
    rw [heq]
  refine ⟨hrun, operation?_eq_some_iff.2 ⟨_, hdec, hres⟩, by rw [heq], ?_, ?_, ?_, ?_,
    ?_, ?_⟩ <;> rw [hmachine]
  · exact hcore
  · exact hconfig
  · rw [hhalted]
    simp [counted, hrun]
  · simp only [hstats]
    rfl
  · exact hquiet
  · exact haccepted

theorem config_step (m : Machine σ) : m.step.machine.config = m.config := by
  cases m.stepCase with
  | executed i op done hrun hdec hres hperf heq =>
    exact (completes_of_perform hrun hdec hres hperf heq).config
  | idle _ heq => rw [heq]
  | _ =>
    rename_i heq
    rw [heq]
    rfl

theorem exists_completes {m : Machine σ} {i : Instruction}
    (h : m.step.result = .ok (.executed i)) : ∃ op, op.instruction = i ∧ m.Completes op := by
  cases m.stepCase with
  | executed j op done hrun hdec hres hperf heq =>
    rw [heq] at h
    cases h
    exact ⟨op, Operation.instruction_of_resolve hres, completes_of_perform hrun hdec hres hperf heq⟩
  | _ =>
    rename_i heq
    rw [heq] at h
    cases h

theorem completes_of_operation {m : Machine σ} {op : Operation} (hrun : m.halted = false)
    (hop : m.operation? = some op)
    (haccepts : ∀ v, m.core.printed op = some v → (OutputSink.emit v m.sink).1 = .ok ()) :
    m.Completes op := by
  obtain ⟨i, hdec, hres⟩ := operation?_eq_some_iff.1 hop
  cases m.stepCase with
  | idle hh _ => simp [hrun] at hh
  | undefinedHalt _ hun _ _ => simp [hdec] at hun
  | undefinedSkip _ _ hun _ _ _ => simp [hdec] at hun
  | badRegister j _ _ hdec' hbad _ =>
    obtain rfl : i = j := by simpa [hdec] using hdec'
    simp [hbad] at hres
  | refused r cause sink _ hdec' hres' hrefused _ =>
    obtain rfl : i = .prn := by simpa [hdec] using hdec'
    obtain rfl : Operation.print r = op := by simpa [hres'] using hres
    have := haccepts _ rfl
    simp [core, hrefused] at this
  | executed j op' done _ hdec' hres' hperf heq =>
    obtain rfl : i = j := by simpa [hdec] using hdec'
    obtain rfl : op' = op := by simpa [hres'] using hres
    exact completes_of_perform hrun hdec hres' hperf heq

end Machine

end LS8
