import LS8.Machine.Step

/-!
# The ways a step can go

A step does nothing, or it counts itself and then goes one of five ways: it meets an undefined
opcode and halts or passes over it, it finds an operand byte that names no register, the output
refuses its value, or it completes an operation (`Machine.stepCase`). What one step keeps is read
off these six ways.

An operand byte is refused exactly when it is the first, among those that should name registers,
that does not (`resolve_eq_error_iff`), so a defined opcode with good operand bytes always resolves
to an operation (`exists_resolve`).
-/

namespace LS8

namespace Instruction

/-- The operand bytes that name registers, in the order in which they follow the opcode. -/
def registerOperands (i : Instruction) (a b : UInt8) : List UInt8 :=
  match i with
  | .ldi | .prn | .push | .pop | .call => [a]
  | .add | .mul => [a, b]
  | .hlt | .ret => []

end Instruction

namespace Operation

def instruction : Operation → Instruction
  | .load .. => .ldi
  | .print _ => .prn
  | .halt => .hlt
  | .compute op .. => op.instruction
  | .push _ => .push
  | .pop _ => .pop
  | .call _ => .call
  | .ret => .ret

theorem instruction_eq_prn_iff {op : Operation} : op.instruction = .prn ↔ ∃ r, op = .print r := by
  cases op
  case compute o r s => cases o <;> simp [instruction, Arithmetic.instruction]
  all_goals simp [instruction]

theorem instruction_eq_hlt_iff {op : Operation} : op.instruction = .hlt ↔ op = .halt := by
  cases op
  case compute o r s => cases o <;> simp [instruction, Arithmetic.instruction]
  all_goals simp [instruction]

/-- The operation's registers and its value are those of the operand bytes. -/
def HasOperands (op : Operation) (a b : UInt8) : Prop :=
  match op with
  | .load r value => r.val = a.toNat ∧ value = b
  | .compute _ r s => r.val = a.toNat ∧ s.val = b.toNat
  | .print r | .push r | .pop r | .call r => r.val = a.toNat
  | .halt | .ret => True

theorem register_of_lt {b : UInt8} (h : b.toNat < registerCount) :
    register b = .ok ⟨b.toNat, h⟩ := by
  simp [register, Register.ofByte?, Register.ofNat?, h]

theorem register_of_le {b : UInt8} (h : registerCount ≤ b.toNat) : register b = .error b := by
  simp [register, Register.ofByte?, Register.ofNat?, Nat.not_lt.2 h]

theorem resolve_eq_error_iff {i : Instruction} {a b index : UInt8} :
    resolve i a b = .error index
      ↔ (i.registerOperands a b).find? (registerCount ≤ ·.toNat) = some index := by
  rcases Nat.lt_or_ge a.toNat registerCount with ha | ha <;>
    rcases Nat.lt_or_ge b.toNat registerCount with hb | hb <;> cases i <;>
    simp [resolve, resolve.resolvePair, Instruction.registerOperands, register_of_lt,
      register_of_le, Except.map, ha, hb]

theorem exists_resolve {i : Instruction} {a b : UInt8}
    (h : ∀ x ∈ i.registerOperands a b, x.toNat < registerCount) :
    ∃ op, resolve i a b = .ok op := by
  rcases hr : resolve i a b with index | op
  · have hfind := resolve_eq_error_iff.1 hr
    have hlt := h index (List.mem_of_find?_eq_some hfind)
    have hge := List.find?_some hfind
    simp only [decide_eq_true_eq] at hge
    omega
  · exact ⟨op, rfl⟩

theorem val_of_register {b : UInt8} {r : Register} (h : register b = .ok r) :
    r.val = b.toNat := by
  rcases Nat.lt_or_ge b.toNat registerCount with hb | hb
  · rw [register_of_lt hb] at h
    cases h
    rfl
  · rw [register_of_le hb] at h
    cases h

theorem resolvePair_ok {a b : UInt8} {o : Arithmetic} {op : Operation}
    (h : resolve.resolvePair a b o = .ok op) :
    ∃ r s, op = .compute o r s ∧ register a = .ok r ∧ register b = .ok s := by
  unfold resolve.resolvePair at h
  split at h <;> cases h
  exact ⟨_, _, rfl, ‹_›, ‹_›⟩

theorem instruction_of_resolve {i : Instruction} {a b : UInt8} {op : Operation}
    (h : resolve i a b = .ok op) : op.instruction = i := by
  cases i <;> simp only [resolve] at h
  case add | mul =>
    obtain ⟨r, s, rfl, -, -⟩ := resolvePair_ok h
    rfl
  case hlt | ret =>
    cases h
    rfl
  all_goals
    rcases hr : register a with e | r <;> rw [hr] at h <;> cases h
    rfl

theorem hasOperands_of_resolve {i : Instruction} {a b : UInt8} {op : Operation}
    (h : resolve i a b = .ok op) : op.HasOperands a b := by
  cases i <;> simp only [resolve] at h
  case add | mul =>
    obtain ⟨r, s, rfl, ha, hb⟩ := resolvePair_ok h
    exact ⟨val_of_register ha, val_of_register hb⟩
  case hlt | ret =>
    cases h
    trivial
  all_goals
    rcases ha : register a with e | r <;> rw [ha] at h <;> cases h
    simp [HasOperands, val_of_register ha]

end Operation

namespace Machine

variable {σ : Type}

def counted (m : Machine σ) : Machine σ :=
  { m with stats := { m.stats with steps := m.stats.steps + 1 } }

/-- The machine behind a step that failed, with the sink as the output left it. -/
def failed (m : Machine σ) (sink : σ) : Machine σ :=
  { m.counted with sink, halted := true }

/-- The machine behind a step that passed over an undefined opcode, up to `next`. -/
def passedOver (m : Machine σ) (next : UInt8) : Machine σ :=
  { m.counted with pc := next, stats := { m.counted.stats with skipped := m.stats.skipped + 1 } }

/-- The operation that the bytes from the program counter on resolve to, if they do. -/
def operation? (m : Machine σ) : Option Operation :=
  (Instruction.decode (m.fetch 0)).bind fun i =>
    (Operation.resolve i (m.fetch 1) (m.fetch 2)).toOption

theorem operation?_eq_some_iff {m : Machine σ} {op : Operation} :
    m.operation? = some op ↔ ∃ i, Instruction.decode (m.fetch 0) = some i
      ∧ Operation.resolve i (m.fetch 1) (m.fetch 2) = .ok op := by
  rw [operation?, Option.bind_eq_some_iff]
  refine exists_congr fun i => and_congr_right fun _ => ?_
  rcases Operation.resolve i (m.fetch 1) (m.fetch 2) with e | o <;> simp [Except.toOption]

variable [OutputSink σ]

/-- The ways a step can go, each with the report it makes. -/
inductive StepCase (m : Machine σ) : Prop
  | idle (halted : m.halted = true) (eq : m.step = ⟨.ok .halted, m, []⟩)
  | undefinedHalt (running : m.halted = false)
      (undefined : Instruction.decode (m.fetch 0) = none)
      (policy : m.config.unknownInstruction = .halt)
      (eq : m.step = ⟨.error (.unknownInstruction (m.fetch 0) m.pc),
        m.failed m.sink, m.traceEvents ++ [.undefinedHalt (m.fetch 0) m.pc]⟩)
  | undefinedSkip (next : UInt8) (running : m.halted = false)
      (undefined : Instruction.decode (m.fetch 0) = none)
      (policy : m.config.unknownInstruction = .skip)
      (skips : next = m.pc + encodedLength (m.fetch 0))
      (eq : m.step = ⟨.ok (.skipped (m.fetch 0) m.pc),
        m.passedOver next, m.traceEvents ++ [.undefinedSkip (m.fetch 0) m.pc next]⟩)
  | badRegister (i : Instruction) (index : UInt8) (running : m.halted = false)
      (decoded : Instruction.decode (m.fetch 0) = some i)
      (bad : Operation.resolve i (m.fetch 1) (m.fetch 2) = .error index)
      (eq : m.step = ⟨.error (.invalidRegister index m.pc), m.failed m.sink,
        m.traceEvents ++ [.faulted m.pc i (.invalidRegister index m.pc)]⟩)
  | refused (r : Register) (cause : IoError) (sink : σ) (running : m.halted = false)
      (decoded : Instruction.decode (m.fetch 0) = some .prn)
      (resolved : Operation.resolve .prn (m.fetch 1) (m.fetch 2) = .ok (.print r))
      (refused : OutputSink.emit (m.registers.get r) m.sink = (.error cause, sink))
      (eq : m.step = ⟨.error (.output cause), m.failed sink,
        m.traceEvents ++ [.faulted m.pc .prn (.output cause)]⟩)
  | executed (i : Instruction) (op : Operation) (done : Machine σ) (running : m.halted = false)
      (decoded : Instruction.decode (m.fetch 0) = some i)
      (resolved : Operation.resolve i (m.fetch 1) (m.fetch 2) = .ok op)
      (performed : m.counted.perform (m.pc + i.size) op = (.ok (), done))
      (eq : m.step = ⟨.ok (.executed i), { done with stats := done.stats.record i },
        m.traceEvents ++ if i = .hlt then [.halted m.pc] else []⟩)

/-- Only the output can refuse its part of an operation, and then nothing but the sink changes. -/
theorem perform_error {m done : Machine σ} {next : UInt8} {op : Operation} {cause : IoError}
    (h : m.perform next op = (.error cause, done)) :
    ∃ r, op = .print r ∧ OutputSink.emit (m.registers.get r) m.sink = (.error cause, done.sink)
      ∧ done = { m with sink := done.sink } := by
  cases op
  case print r =>
    simp only [perform] at h
    split at h
    · cases h
    · rename_i e sink he
      cases h
      exact ⟨r, rfl, he, rfl⟩
  all_goals cases h

theorem step_of_undefined_halt {m : Machine σ} (hrun : m.halted = false)
    (hundef : Instruction.decode (m.fetch 0) = none) (hpol : m.config.unknownInstruction = .halt) :
    m.step = ⟨.error (.unknownInstruction (m.fetch 0) m.pc), m.failed m.sink,
      m.traceEvents ++ [.undefinedHalt (m.fetch 0) m.pc]⟩ := by
  simp [step, hrun, hundef, meetUndefined, hpol, Report.after, failed, counted]

theorem step_of_undefined_skip {m : Machine σ} (hrun : m.halted = false)
    (hundef : Instruction.decode (m.fetch 0) = none) (hpol : m.config.unknownInstruction = .skip) :
    m.step = ⟨.ok (.skipped (m.fetch 0) m.pc), m.passedOver (m.pc + encodedLength (m.fetch 0)),
      m.traceEvents
        ++ [.undefinedSkip (m.fetch 0) m.pc (m.pc + encodedLength (m.fetch 0))]⟩ := by
  simp [step, hrun, hundef, meetUndefined, hpol, Report.after, passedOver, counted]

theorem step_of_decode {m : Machine σ} {i : Instruction} (hrun : m.halted = false)
    (hdec : Instruction.decode (m.fetch 0) = some i) :
    m.step = Report.after m.traceEvents (m.counted.execute i (m.fetch 1) (m.fetch 2)) := by
  simp [step, hrun, hdec, counted]

theorem step_of_bad_register {m : Machine σ} {i : Instruction} {index : UInt8}
    (hrun : m.halted = false) (hdec : Instruction.decode (m.fetch 0) = some i)
    (hbad : Operation.resolve i (m.fetch 1) (m.fetch 2) = .error index) :
    m.step = ⟨.error (.invalidRegister index m.pc), m.failed m.sink,
      m.traceEvents ++ [.faulted m.pc i (.invalidRegister index m.pc)]⟩ := by
  rw [step_of_decode hrun hdec]
  simp [execute, hbad, fail, Report.after, failed, counted]

theorem stepCase (m : Machine σ) : m.StepCase := by
  rcases hrun : m.halted with _ | _
  · rcases hdec : Instruction.decode (m.fetch 0) with _ | i
    · rcases hpol : m.config.unknownInstruction with _ | _
      · exact .undefinedHalt hrun hdec hpol (step_of_undefined_halt hrun hdec hpol)
      · exact .undefinedSkip _ hrun hdec hpol rfl (step_of_undefined_skip hrun hdec hpol)
    · have hstep := step_of_decode hrun hdec
      rcases hres : Operation.resolve i (m.fetch 1) (m.fetch 2) with index | op
      · exact .badRegister i index hrun hdec hres (step_of_bad_register hrun hdec hres)
      · rcases hperf : m.counted.perform (m.pc + i.size) op with ⟨_ | _, done⟩
        · rename_i cause
          obtain ⟨r, rfl, hemit, hdone⟩ := perform_error hperf
          obtain rfl : Instruction.prn = i := Operation.instruction_of_resolve hres
          refine .refused r cause done.sink hrun hdec hres hemit ?_
          have hpc : m.counted.pc = m.pc := rfl
          rw [hstep, hdone]
          simp only [execute, hres, hpc, hperf]
          rw [hdone]
          simp [fail, Report.after, failed, hpc]
        · refine .executed i op done hrun hdec hres hperf ?_
          have hpc : m.counted.pc = m.pc := rfl
          rw [hstep]
          simp [execute, hres, hpc, hperf, Report.after]
  · exact .idle hrun (step_of_halted hrun)

theorem running_of_step_error {m : Machine σ} {fault : Fault} (h : m.step.result = .error fault) :
    m.halted = false := by
  rcases hh : m.halted with _ | _
  · rfl
  · simp [step_of_halted hh] at h

theorem ne_stepLimit_of_step {m : Machine σ} {fault : Fault} (h : m.step.result = .error fault)
    (limit : Nat) : fault ≠ .stepLimitExceeded limit := by
  rintro rfl
  cases m.stepCase with
  | _ =>
    rename_i heq
    rw [heq] at h
    cases h

end Machine

end LS8
