import LS8.Machine.Run
import LS8.Proofs.Step
import Mathlib.Data.Nat.Notation

/-!
# The machine changed in place

A step resolves its operand bytes to registers before it does anything, so it cannot ask for a
register that is not there. Here the same work is done piece by piece on a machine that is changed
in place: an operand byte is checked where it is needed and is a mere number from then on, and an
access to the register file by a number that is none of its indices crashes, and nothing comes of
it (`Activity`). Each check stands in front of the accesses that need it, so a step, a bounded run
and a computation asked for directly never crash, and they report what the machine reports
(`Activity.step_eq`, `Activity.runFor_eq`, `Activity.compute_eq`).
-/

namespace LS8

@[simp] theorem Report.after_nil {σ α : Type} : (Report.after [] : Report σ α → Report σ α) = id :=
  rfl

/-- What is done to a machine in place. It ends in a report, unless it crashes. -/
def Activity (σ α : Type) : Type :=
  Machine σ → Option (Report σ α)

namespace Activity

variable {σ α β : Type}

/-- Goes on where the first activity ends, unless it faults. -/
def andThen (x : Activity σ α) (f : α → Activity σ β) : Activity σ β := fun m =>
  match x m with
  | none => none
  | some ⟨.error fault, m, events⟩ => some ⟨.error fault, m, events⟩
  | some ⟨.ok a, m, events⟩ => (f a m).map (Report.after events)

instance : Monad (Activity σ) where
  pure a := fun m => some ⟨.ok a, m, []⟩
  bind := andThen

def machine : Activity σ (Machine σ) := fun m => some ⟨.ok m, m, []⟩

def change (f : Machine σ → Machine σ) : Activity σ Unit := fun m => some ⟨.ok (), f m, []⟩

def note (e : Event) : Activity σ Unit := fun m => some ⟨.ok (), m, [e]⟩

def fault (f : Fault) : Activity σ α := fun m => some ⟨.error f, m, []⟩

/-- Where the first activity faults, the second one follows before the fault goes on. -/
def onFault (x : Activity σ α) (f : Fault → Activity σ Unit) : Activity σ α := fun m =>
  match x m with
  | some ⟨.error e, m, events⟩ => ((f e >>= fun _ => fault e) m).map (Report.after events)
  | r => r

/-! ## Accesses -/

/-- The value of the register with this index; a number that is no index crashes. -/
def readRegister (index : ℕ) : Activity σ UInt8 := fun m =>
  m.registers.cells[index]?.map fun value => ⟨.ok value, m, []⟩

/-- Writes the register with this index; a number that is no index crashes. -/
def writeRegister (index : ℕ) (value : UInt8) : Activity σ Unit := fun m =>
  if h : index < registerCount then
    some ⟨.ok (), { m with registers := m.registers.set ⟨index, h⟩ value }, []⟩
  else none

/-- An operand byte as an index, once it is known to be one. -/
def operand (byte : UInt8) : Activity σ ℕ := do
  if byte.toNat < registerCount then return byte.toNat
  else fault (.invalidRegister byte (← machine).pc)

def readMemory (address : UInt8) : Activity σ UInt8 := do
  return (← machine).memory.read address

def writeMemory (address value : UInt8) : Activity σ Unit :=
  change fun m => { m with memory := m.memory.write address value }

def jump (address : UInt8) : Activity σ Unit :=
  change fun m => { m with pc := address }

def readSp : Activity σ UInt8 :=
  readRegister Register.stackPointer.val

def writeSp (value : UInt8) : Activity σ Unit :=
  writeRegister Register.stackPointer.val value

def emit [OutputSink σ] (value : UInt8) : Activity σ Unit := fun m =>
  match OutputSink.emit value m.sink with
  | (.ok (), sink) => some ⟨.ok (), { m with sink }, []⟩
  | (.error cause, sink) => some ⟨.error (.output cause), { m with sink }, []⟩

@[simp] theorem pure_apply (a : α) (m : Machine σ) :
    (pure a : Activity σ α) m = some ⟨.ok a, m, []⟩ := rfl

@[simp] theorem bind_apply (x : Activity σ α) (f : α → Activity σ β) (m : Machine σ) :
    (x >>= f) m = match x m with
      | none => none
      | some ⟨.error fault, m, events⟩ => some ⟨.error fault, m, events⟩
      | some ⟨.ok a, m, events⟩ => (f a m).map (Report.after events) := rfl

@[simp] theorem machine_apply (m : Machine σ) : machine m = some ⟨.ok m, m, []⟩ := rfl

@[simp] theorem change_apply (f : Machine σ → Machine σ) (m : Machine σ) :
    change f m = some ⟨.ok (), f m, []⟩ := rfl

@[simp] theorem note_apply (e : Event) (m : Machine σ) : note e m = some ⟨.ok (), m, [e]⟩ := rfl

@[simp] theorem fault_apply (f : Fault) (m : Machine σ) :
    (fault f : Activity σ α) m = some ⟨.error f, m, []⟩ := rfl

@[simp] theorem readRegister_val (r : Register) (m : Machine σ) :
    readRegister r.val m = some ⟨.ok (m.registers.get r), m, []⟩ := by
  simp [readRegister, Registers.get]

@[simp] theorem writeRegister_val (r : Register) (value : UInt8) (m : Machine σ) :
    writeRegister r.val value m
      = some ⟨.ok (), { m with registers := m.registers.set r value }, []⟩ := by
  simp [writeRegister]

@[simp] theorem readSp_apply (m : Machine σ) : readSp m = some ⟨.ok m.registers.sp, m, []⟩ :=
  readRegister_val _ m

@[simp] theorem writeSp_apply (value : UInt8) (m : Machine σ) :
    writeSp value m = some ⟨.ok (), { m with registers := m.registers.setSp value }, []⟩ :=
  writeRegister_val _ value m

@[simp] theorem readMemory_apply (address : UInt8) (m : Machine σ) :
    readMemory address m = some ⟨.ok (m.memory.read address), m, []⟩ := rfl

@[simp] theorem writeMemory_apply (address value : UInt8) (m : Machine σ) :
    writeMemory address value m
      = some ⟨.ok (), { m with memory := m.memory.write address value }, []⟩ := rfl

@[simp] theorem jump_apply (address : UInt8) (m : Machine σ) :
    jump address m = some ⟨.ok (), { m with pc := address }, []⟩ := rfl

theorem operand_apply (byte : UInt8) (m : Machine σ) :
    operand byte m = some (match Operation.register byte with
      | .error index => ⟨.error (.invalidRegister index m.pc), m, []⟩
      | .ok r => ⟨.ok r.val, m, []⟩) := by
  rcases Nat.lt_or_ge byte.toNat registerCount with h | h
  · rw [Operation.register_of_lt h, operand, if_pos h]
    rfl
  · rw [Operation.register_of_le h, operand, if_neg (Nat.not_lt.2 h)]
    rfl

/-! ## Activities of the machine -/

def compute (opcode a b : UInt8) : Activity σ Unit := do
  let r ← operand a
  let s ← operand b
  match Arithmetic.execute opcode (← readRegister r) (← readRegister s) with
  | .error f => fault f
  | .ok value => writeRegister r value

variable [OutputSink σ]

def perform (i : Instruction) (a b : UInt8) : Activity σ Unit := do
  let pc := (← machine).pc
  let next := pc + i.size
  match i with
  | .ldi =>
    let r ← operand a
    writeRegister r b
  | .prn =>
    let r ← operand a
    emit (← readRegister r)
    change fun m => { m with stats := { m.stats with emitted := m.stats.emitted + 1 } }
  | .hlt =>
    change fun m => { m with halted := true }
    note (.halted pc)
  | .add | .mul => compute i.opcode a b
  | .push =>
    let r ← operand a
    writeSp ((← readSp) - 1)
    writeMemory (← readSp) (← readRegister r)
  | .pop =>
    let r ← operand a
    writeRegister r (← readMemory (← readSp))
    writeSp ((← readSp) + 1)
  | .call =>
    let r ← operand a
    writeSp ((← readSp) - 1)
    writeMemory (← readSp) next
    jump (← readRegister r)
  | .ret =>
    jump (← readMemory (← readSp))
    writeSp ((← readSp) + 1)
  if !i.isJump then jump next

def execute (i : Instruction) (a b : UInt8) : Activity σ Outcome := do
  let pc := (← machine).pc
  (perform i a b).onFault fun f => do
    change fun m => { m with halted := true }
    note (.faulted pc i f)
  change fun m => { m with stats := m.stats.record i }
  return .executed i

def meetUndefined (opcode : UInt8) : Activity σ Outcome := fun m => some (m.meetUndefined opcode)

def step : Activity σ Outcome := do
  let m ← machine
  if m.halted then return .halted
  else
    if m.config.traceInstructions then note (.trace m.traceLine)
    change Machine.counted
    let opcode ← readMemory m.pc
    let a ← readMemory (m.pc + 1)
    let b ← readMemory (m.pc + 2)
    match Instruction.decode opcode with
    | none => meetUndefined opcode
    | some i => execute i a b

def runWithin (limit : ℕ) : (left : ℕ) → Activity σ ℕ
  | 0 => do
    if (← machine).halted then return limit
    else fault (.stepLimitExceeded limit)
  | left + 1 => do
    if (← machine).halted then return limit - (left + 1)
    else
      let _ ← step
      runWithin limit left

def runFor (limit : ℕ) : Activity σ ℕ :=
  runWithin limit limit

/-! ## None of them crashes -/

omit [OutputSink σ] in
theorem compute_eq (opcode a b : UInt8) (m : Machine σ) :
    compute opcode a b m = some (match m.compute opcode a b with
      | .error f => ⟨.error f, m, []⟩
      | .ok after => ⟨.ok (), after, []⟩) := by
  unfold Machine.compute
  rcases ha : Operation.register a with index | r
  · simp [compute, operand_apply, ha]
  · rcases hb : Operation.register b with index | s
    · simp [compute, operand_apply, ha, hb]
    · rcases hv : Arithmetic.execute opcode (m.registers.get r) (m.registers.get s) with f | value <;>
        simp [compute, operand_apply, ha, hb, hv]

/-- Checking each operand where it is needed comes to the same as resolving all of them first. -/
theorem perform_eq (i : Instruction) (a b : UInt8) (m : Machine σ) :
    perform i a b m = some (match Operation.resolve i a b with
      | .error index => ⟨.error (.invalidRegister index m.pc), m, []⟩
      | .ok op => match m.perform (m.pc + i.size) op with
        | (.error cause, after) => ⟨.error (.output cause), after, []⟩
        | (.ok (), after) => ⟨.ok (), after, if i = .hlt then [.halted m.pc] else []⟩) := by
  cases i
  case hlt => rfl
  case ret =>
    simp [perform, Operation.resolve, Machine.perform, Machine.top, Registers.raiseSp,
      Instruction.isJump]
  case add | mul =>
    simp only [perform, bind_apply, machine_apply, compute_eq, Machine.compute, Operation.resolve,
      Operation.resolve.resolvePair]
    rcases Operation.register a with index | r
    · rfl
    · rcases Operation.register b with index | s <;> rfl
  all_goals
    simp only [perform, bind_apply, machine_apply, operand_apply, Operation.resolve]
    rcases Operation.register a with index | r
    · rfl
  case prn.ok =>
    rcases hemit : OutputSink.emit (m.registers.get r) m.sink with ⟨_ | _, sink⟩ <;>
      simp [emit, hemit, Machine.perform, Instruction.isJump, Except.map]
  all_goals
    simp [Machine.perform, Machine.pushByte, Machine.top, Registers.raiseSp, Registers.lowerSp,
      Instruction.isJump, Except.map]

theorem execute_eq (i : Instruction) (a b : UInt8) (m : Machine σ) :
    execute i a b m = some (m.execute i a b) := by
  unfold Machine.execute
  rcases hres : Operation.resolve i a b with index | op
  · simp [execute, onFault, perform_eq, hres, Machine.fail, Report.after]
  · rcases hperf : m.perform (m.pc + i.size) op with ⟨cause | _, done⟩
    · have hpc : done.pc = m.pc := by
        obtain ⟨r, -, -, hdone⟩ := Machine.perform_error hperf
        rw [hdone]
      simp [execute, onFault, perform_eq, hres, hperf, hpc, Machine.fail, Report.after]
    · simp [execute, onFault, perform_eq, hres, hperf, Report.after]

theorem step_eq (m : Machine σ) : step m = some m.step := by
  rcases hrun : m.halted with _ | _
  · rcases hdec : Instruction.decode (m.memory.read m.pc) with _ | i <;>
      rcases htrace : m.config.traceInstructions with _ | _ <;>
      simp [step, meetUndefined, execute_eq, Machine.step, Machine.traceEvents, Machine.fetch,
        Machine.counted, hrun, hdec, htrace]
  · rw [Machine.step_of_halted hrun]
    simp [step, hrun]

theorem runWithin_eq (limit : ℕ) : ∀ (left : ℕ) (m : Machine σ),
    runWithin limit left m = some (m.runWithin limit left #[])
  | 0, m => by
    rcases hrun : m.halted with _ | _ <;> simp [runWithin, Machine.runWithin, hrun]
  | left + 1, m => by
    rcases hrun : m.halted with _ | _
    · rcases hs : m.step with ⟨f | o, next, events⟩
      · simp [runWithin, Machine.runWithin, step_eq, hrun, hs]
      · have ih := runWithin_eq limit left next
        have hlog := Machine.runWithin_log limit left next events.toArray
        simp [runWithin, Machine.runWithin, step_eq, hrun, hs, ih, hlog]
    · simp [runWithin, Machine.runWithin, hrun]

theorem runFor_eq (limit : ℕ) (m : Machine σ) : runFor limit m = some (m.runFor limit) :=
  runWithin_eq limit limit m

end Activity

end LS8
