import LS8.Proofs.Session

/-!
# What a fault leaves behind

A step that fails halts the machine and counts itself, and nothing else happens but what the output
does with a value it refuses (`failsInto_of_step`). A run that fails therefore leaves the machine
that its last step found, up to these, and the trace line still shows the instruction that failed;
a computation asked for directly that fails leaves no mark at all (`fault_atomic`).
-/

namespace LS8

namespace Machine

variable {σ : Type}

theorem traceLine_failed (m : Machine σ) (sink : σ) : (m.failed sink).traceLine = m.traceLine := rfl

variable [OutputSink σ]

/-- A step from the machine that failed so ends in `final`. -/
structure FailsInto (m : Machine σ) (fault : Fault) (final : Machine σ) : Prop where
  eq : final = m.failed final.sink
  untouched : (∀ cause, fault ≠ .output cause) → final.sink = m.sink
  refused : ∀ cause, fault = .output cause →
    ∃ value, OutputSink.emit value m.sink = (.error cause, final.sink)

theorem failsInto_of_step {m : Machine σ} {fault : Fault} (h : m.step.result = .error fault) :
    m.FailsInto fault m.step.machine := by
  cases m.stepCase with
  | idle _ heq | undefinedSkip _ _ _ _ _ heq | executed _ _ _ _ _ _ _ heq =>
    rw [heq] at h
    cases h
  | undefinedHalt _ _ _ heq | badRegister _ _ _ _ _ heq =>
    rw [heq] at h ⊢
    cases h
    exact ⟨rfl, fun _ => rfl, fun _ hcause => by cases hcause⟩
  | refused r cause sink _ _ _ hrefused heq =>
    rw [heq] at h ⊢
    cases h
    refine ⟨rfl, fun hne => absurd rfl (hne cause), fun _ hcause => ?_⟩
    cases hcause
    exact ⟨_, hrefused⟩

/-- The run ended in `final` over a fault: it took `k` steps that went well and one that failed. -/
structure FailsAfter (m : Machine σ) (k : ℕ) (fault : Fault) (final : Machine σ) : Prop where
  advances : m.Advances k
  result : (m.after k).step.result = .error fault
  reached : final = m.after (k + 1)
  fails : (m.after k).FailsInto fault final
  traceLine : final.traceLine = (m.after k).traceLine

theorem EndsAt.failsAfter {m : Machine σ} {k : ℕ} {fault : Fault}
    (h : m.EndsAt k (.error fault)) : ∃ j, k = j + 1 ∧ m.FailsAfter j fault (m.after k) := by
  cases h with
  | @faulted j _ ha hf =>
    have hfails := failsInto_of_step hf
    rw [← after_succ] at hfails
    refine ⟨j, rfl, ha, hf, rfl, hfails, ?_⟩
    rw [hfails.eq, traceLine_failed]

/-- A fault changes nothing but the halted flag, the count of steps, and what the output does with a
value it refuses, be it met in a step or a run; a computation that fails changes nothing. -/
theorem fault_atomic (m : Machine σ) :
    (∀ fault, m.step.result = .error fault →
        m.step.machine.registers = m.registers ∧ m.step.machine.memory = m.memory
          ∧ m.step.machine.pc = m.pc ∧ m.step.machine.config = m.config
          ∧ m.step.machine.halted = true
          ∧ m.step.machine.stats = { m.stats with steps := m.stats.steps + 1 }
          ∧ ((∀ cause, fault ≠ .output cause) → m.step.machine.sink = m.sink))
      ∧ (∀ n fault, (m.runFor n).result = .error fault →
          (∀ limit, fault ≠ .stepLimitExceeded limit) →
          ∃ k < n, m.FailsAfter k fault (m.runFor n).machine)
      ∧ (∀ report fault, m.run = some report → report.result = .error fault →
          (∀ limit, fault ≠ .stepLimitExceeded limit) →
          ∃ k, m.FailsAfter k fault report.machine)
      ∧ ∀ opcode a b fault final,
          (computeInPlace opcode a b).run m = .error fault final → final = m := by
  refine ⟨fun fault h => ?_, fun n fault h hne => ?_, fun report fault hrun h hne => ?_,
    fun opcode a b fault final h => ?_⟩
  · have hfails := failsInto_of_step h
    rw [hfails.eq]
    exact ⟨rfl, rfl, rfl, rfl, rfl, rfl, hfails.untouched⟩
  · rcases m.runFor_cases n with ⟨k, hk, r, hends, heq⟩ | ⟨-, -, heq⟩
    · rw [heq] at h ⊢
      rcases r with _ | _ <;> cases h
      obtain ⟨j, rfl, hj⟩ := hends.failsAfter
      exact ⟨j, hk, hj⟩
    · rw [heq] at h
      cases h
      exact absurd rfl (hne n)
  · rcases run_cases hrun with ⟨k, r, hends, rfl⟩ | ⟨n, -, -, rfl⟩
    · cases h
      obtain ⟨j, rfl, hj⟩ := hends.failsAfter
      exact ⟨j, hj⟩
    · cases h
      exact absurd rfl (hne n)
  · rw [run_computeInPlace] at h
    split at h <;> cases h
    rfl

/-- A load and a print before an output that takes no value. -/
def refusingPrint : Machine BoundedCollector :=
  let code := [(0, 0x82), (1, 0x00), (2, 0x05), (3, 0x47), (4, 0x00)]
  { initial ({ room := 0 } : BoundedCollector) { maxSteps := some 4 } with
    memory := code.foldl (fun memory cell => memory.write cell.1 cell.2) Memory.zero }

theorem fault_atomic_refusingPrint :
    (refusingPrint.after 1).step.machine.registers = (refusingPrint.after 1).registers
      ∧ (∃ k < 4, refusingPrint.FailsAfter k (.output (.device "sink closed"))
          (refusingPrint.runFor 4).machine)
      ∧ (∃ report, refusingPrint.run = some report
          ∧ ∃ k, refusingPrint.FailsAfter k (.output (.device "sink closed")) report.machine)
      ∧ ∃ final, (computeInPlace 0x82 0 0).run refusingPrint
          = .error (.unsupportedOperation 0x82) final ∧ final = refusingPrint := by
  have hne : ∀ limit, Fault.output (.device "sink closed") ≠ .stepLimitExceeded limit := nofun
  refine ⟨((fault_atomic (refusingPrint.after 1)).1 (.output (.device "sink closed")) rfl).1,
    (fault_atomic refusingPrint).2.1 4 _ rfl hne,
    ⟨_, rfl, (fault_atomic refusingPrint).2.2.1 _ _ rfl rfl hne⟩,
    ⟨_, rfl, (fault_atomic refusingPrint).2.2.2 0x82 0 0 _ _ rfl⟩⟩

end Machine

end LS8
