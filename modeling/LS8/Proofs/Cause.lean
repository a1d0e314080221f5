import LS8.Proofs.InPlace
import LS8.Proofs.Unplugged

/-!
# Why a step fails

Whatever bytes a memory holds, a step of a running machine fails for one of three reasons: the
opcode is undefined and undefined opcodes halt, an operand byte that should name a register names
none, or the output refuses the value of a print (`Machine.Cause`). The three exclude each other,
each shows in a fault of its own, and without any of them the step goes through. No access outside
the register file is ever tried on the way, be it in a step, a run or a computation asked for
directly, and no step reports a fault of the arithmetic unit (`fault_causes`).
-/

namespace LS8

namespace Machine

variable {σ : Type} [OutputSink σ]

/-- What makes the step of a running machine fail, with the fault that it reports. -/
inductive Cause (m : Machine σ) : Fault → Prop
  | undefined (opcode : Instruction.decode (m.memory.read m.pc) = none)
      (policy : m.config.unknownInstruction = .halt) :
      m.Cause (.unknownInstruction (m.memory.read m.pc) m.pc)
  | noRegister {i : Instruction} {index : UInt8}
      (opcode : Instruction.decode (m.memory.read m.pc) = some i)
      (first : (i.registerOperands (m.memory.read (m.pc + 1)) (m.memory.read (m.pc + 2))).find?
        (registerCount ≤ ·.toNat) = some index) :
      m.Cause (.invalidRegister index m.pc)
  | refused {r : Register} {cause : IoError}
      (opcode : Instruction.decode (m.memory.read m.pc) = some .prn)
      (operand : r.val = (m.memory.read (m.pc + 1)).toNat)
      (refused : (OutputSink.emit (m.registers.get r) m.sink).1 = .error cause) :
      m.Cause (.output cause)

variable {m : Machine σ}

theorem cause_of_step_error {fault : Fault} (h : m.step.result = .error fault) :
    m.halted = false ∧ m.Cause fault := by
  refine ⟨running_of_step_error h, ?_⟩
  cases m.stepCase with
  | undefinedHalt hrun hundef hpol heq =>
    rw [heq] at h
    rw [fetch_zero] at hundef h
    cases h
    exact .undefined hundef hpol
  | badRegister i index hrun hdec hbad heq =>
    rw [heq] at h
    rw [fetch_zero] at hdec
    cases h
    exact .noRegister hdec (Operation.resolve_eq_error_iff.1 hbad)
  | refused r cause sink hrun hdec hres hrefused heq =>
    rw [heq] at h
    rw [fetch_zero] at hdec
    cases h
    have hoperand : r.val = (m.fetch 1).toNat := Operation.hasOperands_of_resolve hres
    exact .refused hdec hoperand (by rw [hrefused])
  | idle _ heq | undefinedSkip _ _ _ _ _ heq | executed _ _ _ _ _ _ _ heq =>
    rw [heq] at h
    cases h

theorem step_error_of_cause (hrun : m.halted = false) {fault : Fault} (h : m.Cause fault) :
    m.step.result = .error fault := by
  cases h with
  | undefined hundef hpol =>
    rw [← fetch_zero] at hundef ⊢
    rw [step_of_undefined_halt hrun hundef hpol]
  | @noRegister i index hdec hfirst =>
    rw [← fetch_zero] at hdec
    rw [step_of_bad_register hrun hdec (Operation.resolve_eq_error_iff.2 hfirst)]
  | @refused r cause hdec hoperand hrefused =>
    rw [← fetch_zero] at hdec
    have hlt : (m.fetch 1).toNat < registerCount := hoperand ▸ r.isLt
    have hres : Operation.resolve .prn (m.fetch 1) (m.fetch 2) = .ok (.print r) := by
      simp only [Operation.resolve, Operation.register_of_lt hlt, Except.map]
      congr 2
      exact Fin.ext hoperand.symm
    have hv : m.handsOut = some (m.registers.get r) :=
      handsOut_of_operation hrun (operation?_eq_some_iff.2 ⟨_, hdec, hres⟩)
    rcases hemit : OutputSink.emit (m.registers.get r) m.sink with ⟨answer, sink⟩
    rw [hemit] at hrefused
    cases hrefused
    exact (step_of_refuses hv hemit).1

theorem step_error_iff {fault : Fault} :
    m.step.result = .error fault ↔ m.halted = false ∧ m.Cause fault :=
  ⟨cause_of_step_error, fun h => step_error_of_cause h.1 h.2⟩

theorem step_of_no_cause (hrun : m.halted = false) (h : ∀ fault, ¬ m.Cause fault) :
    m.step.result = .ok (match Instruction.decode (m.memory.read m.pc) with
      | some i => .executed i
      | none => .skipped (m.memory.read m.pc) m.pc) := by
  rw [← fetch_zero]
  cases m.stepCase with
  | undefinedSkip next _ hundef _ _ heq => rw [heq, hundef]
  | executed i op done _ hdec _ _ heq => rw [heq, hdec]
  | idle hh _ => simp [hrun] at hh
  | undefinedHalt _ _ _ heq | badRegister _ _ _ _ _ heq | refused _ _ _ _ _ _ _ heq =>
    exact absurd (cause_of_step_error (by rw [heq])).2 (h _)

theorem step_ne_unsupported (m : Machine σ) (opcode : UInt8) :
    m.step.result ≠ .error (.unsupportedOperation opcode) := by
  intro h
  cases (cause_of_step_error h).2

theorem EndsAt.ne_unsupported {k : ℕ} {r : Except Fault Unit} (h : m.EndsAt k r) (opcode : UInt8) :
    r ≠ .error (.unsupportedOperation opcode) := by
  rintro rfl
  cases h with
  | faulted _ hf => exact step_ne_unsupported _ opcode hf

/-- A step of a running machine fails for one of three causes and goes through without one, and
neither steps nor bounded runs nor direct computations come to an access that would crash. -/
theorem fault_causes (m : Machine σ) :
    Activity.step m = some m.step
      ∧ (∀ limit, Activity.runFor limit m = some (m.runFor limit))
      ∧ (∀ opcode a b, Activity.compute opcode a b m = some (match m.compute opcode a b with
        | .error fault => ⟨.error fault, m, []⟩
        | .ok after => ⟨.ok (), after, []⟩))
      ∧ (∀ fault, m.step.result = .error fault ↔ m.halted = false ∧ m.Cause fault)
      ∧ (m.halted = false → (∀ fault, ¬ m.Cause fault) →
        m.step.result = .ok (match Instruction.decode (m.memory.read m.pc) with
          | some i => .executed i
          | none => .skipped (m.memory.read m.pc) m.pc))
      ∧ (∀ opcode, m.step.result ≠ .error (.unsupportedOperation opcode))
      ∧ (∀ limit, m.step.result ≠ .error (.stepLimitExceeded limit))
      ∧ (∀ n opcode, (m.runFor n).result ≠ .error (.unsupportedOperation opcode))
      ∧ ∀ report opcode, m.run = some report →
        report.result ≠ .error (.unsupportedOperation opcode) := by
  refine ⟨Activity.step_eq m, fun limit => Activity.runFor_eq limit m,
    fun opcode a b => Activity.compute_eq opcode a b m, fun fault => step_error_iff,
    step_of_no_cause, m.step_ne_unsupported, fun limit h => ne_stepLimit_of_step h limit rfl,
    fun n opcode h => ?_, fun report opcode hrun h => ?_⟩
  · rcases m.runFor_cases n with ⟨k, -, r, hends, heq⟩ | ⟨-, -, heq⟩
    · rw [heq] at h
      rcases r with fault | _ <;> cases h
      exact hends.ne_unsupported opcode rfl
    · rw [heq] at h
      cases h
  · rcases run_cases hrun with ⟨k, r, hends, rfl⟩ | ⟨n, -, -, rfl⟩
    · exact hends.ne_unsupported opcode h
    · cases h

/-- A sum at the end of memory, with the second operand at address zero: both name no register. -/
def sumsBeyond : Machine Collector :=
  { initial ({} : Collector) {} with
    pc := 0xFE
    memory := ((Memory.zero.write 0xFE 0xA0).write 0xFF 9).write 0 200 }

/-- A load of a value that would be no register. -/
def loadsBeyond : Machine Collector :=
  { initial ({} : Collector) {} with memory := (Memory.zero.write 0 0x82).write 2 200 }

theorem fault_causes_sumsBeyond :
    sumsBeyond.Cause (.invalidRegister 9 0xFE)
      ∧ sumsBeyond.step.result = .error (.invalidRegister 9 0xFE)
      ∧ (∃ r, Activity.step sumsBeyond = some r ∧ r.result = .error (.invalidRegister 9 0xFE))
      ∧ (∀ fault, ¬ loadsBeyond.Cause fault)
      ∧ loadsBeyond.step.result = .ok (.executed .ldi) := by
  have hcause : sumsBeyond.Cause (.invalidRegister 9 0xFE) :=
    .noRegister (i := .add) (by decide +kernel) (by decide +kernel)
  obtain ⟨hplace, -, -, hiff, -⟩ := fault_causes sumsBeyond
  have hresult := (hiff _).2 ⟨rfl, hcause⟩
  have hldi : Instruction.decode (loadsBeyond.memory.read loadsBeyond.pc) = some .ldi := by
    decide +kernel
  have hnone : ∀ fault, ¬ loadsBeyond.Cause fault := by
    intro fault h
    cases h with
    | undefined hundef _ => simp [hldi] at hundef
    | @noRegister i index hdec hfirst =>
      obtain rfl : Instruction.ldi = i := by simpa [hldi] using hdec
      revert hfirst
      have hregs : (Instruction.registerOperands .ldi (loadsBeyond.memory.read (loadsBeyond.pc + 1))
          (loadsBeyond.memory.read (loadsBeyond.pc + 2))).find? (registerCount ≤ ·.toNat) = none := by
        decide +kernel
      simp [hregs]
    | refused hdec _ _ => simp [hldi] at hdec
  have hgoes := (fault_causes loadsBeyond).2.2.2.2.1 rfl hnone
  rw [hldi] at hgoes
  exact ⟨hcause, hresult, ⟨_, hplace, hresult⟩, hnone, hgoes⟩

end Machine

end LS8
