import LS8.Proofs.Fault
import Mathlib.Algebra.GroupWithZero.Nat

/-!
# The counters add up

Every step is completed, passed over or failed, and each way is counted where it is gone: a
completed instruction in the total and under its own kind, a printed value with the instruction that
printed it. So in every session the counters of a collecting machine agree with each other, with the
values collected and with the faults it answered (`Accounted`), whatever was asked for in between
(`counters_add_up`).
-/

namespace LS8

theorem Stats.sum_count_record (s : Stats) (i : Instruction) :
    (Instruction.all.map (s.record i).count).sum = (Instruction.all.map s.count).sum + 1 := by
  cases i <;> simp [Instruction.all] <;> omega

theorem Stats.count_completed (s : Stats) (i j : Instruction) :
    (s.completed i).count j = s.count j + if i = j then 1 else 0 :=
  Stats.count_record _ i j

theorem Stats.sum_count_completed (s : Stats) (i : Instruction) :
    (Instruction.all.map (s.completed i).count).sum = (Instruction.all.map s.count).sum + 1 :=
  Stats.sum_count_record _ i

namespace Machine

/-- The counters agree with each other, with the values collected, and with the number of steps that
failed. -/
structure Accounted (m : Machine Collector) (faulted : ℕ) : Prop where
  retired : m.stats.retired = (Instruction.all.map m.stats.count).sum
  emitted : m.stats.emitted = m.stats.count .prn
  collected : m.sink.values.size = m.stats.emitted
  skipped : m.config.unknownInstruction = .halt → m.stats.skipped = 0
  steps : m.stats.steps = m.stats.retired + m.stats.skipped + faulted
  once : m.stats.count .hlt + faulted ≤ 1
  halted : m.halted = true ↔ m.stats.count .hlt + faulted = 1

variable {m : Machine Collector} {faulted : ℕ}

theorem accounted_initial (config : Config) : (initial ({} : Collector) config).Accounted 0 where
  retired := rfl
  emitted := rfl
  collected := rfl
  skipped _ := rfl
  steps := rfl
  once := Nat.zero_le 1
  halted := by simp [initial, Stats.count, Mix.get]

theorem Accounted.running (h : m.Accounted faulted) (hrun : m.halted = false) :
    m.stats.count .hlt = 0 ∧ faulted = 0 := by
  have hne : ¬ m.stats.count .hlt + faulted = 1 := by
    rw [← h.halted, hrun]
    decide
  have := h.once
  omega

theorem Accounted.fails (h : m.Accounted faulted) {fault : Fault}
    (hfault : m.step.result = .error fault) : m.step.machine.Accounted (faulted + 1) := by
  obtain ⟨hhlt, rfl⟩ := h.running (running_of_step_error hfault)
  have hinto := failsInto_of_step hfault
  have hsink : m.step.machine.sink = m.sink := by
    refine hinto.untouched fun cause hcause => ?_
    obtain ⟨value, hrefused⟩ := hinto.refused cause hcause
    cases hrefused
  rw [hinto.eq, hsink]
  have hsteps := h.steps
  exact
    { retired := h.retired
      emitted := h.emitted
      collected := h.collected
      skipped := h.skipped
      steps := by simp only [failed, counted]; omega
      once := by simpa [failed, counted, Stats.count] using hhlt
      halted := by simpa [failed, counted, Stats.count] using hhlt }

theorem Accounted.passedOver (h : m.Accounted faulted) (next : UInt8)
    (hskip : m.config.unknownInstruction = .skip) : (m.passedOver next).Accounted faulted := by
  have hsteps := h.steps
  exact
    { retired := h.retired
      emitted := h.emitted
      collected := h.collected
      skipped := fun hhalt => absurd (hskip.symm.trans hhalt) (by decide)
      steps := by simp only [Machine.passedOver, counted]; omega
      once := h.once
      halted := h.halted }

theorem Completes.collected {op : Operation} (hop : m.Completes op) :
    m.step.machine.sink.values.size
      = m.sink.values.size + if op.instruction = .prn then 1 else 0 := by
  rcases hv : m.core.printed op with _ | v
  · have hprn : op.instruction ≠ .prn := by
      rw [Ne, Operation.instruction_eq_prn_iff]
      rintro ⟨r, rfl⟩
      cases hv
    rw [hop.quiet hv, if_neg hprn]
    rfl
  · have hprn : op.instruction = .prn := by
      cases op <;> cases hv
      rfl
    have hsink : m.step.machine.sink = ⟨m.sink.values.push v⟩ :=
      (congrArg Prod.snd (hop.accepted v hv)).symm
    rw [hsink, if_pos hprn]
    exact Array.size_push _

theorem Accounted.completes (h : m.Accounted faulted) {op : Operation} (hop : m.Completes op) :
    m.step.machine.Accounted faulted := by
  obtain ⟨hhlt, rfl⟩ := h.running hop.running
  have hretired := h.retired
  have hsteps := h.steps
  have hemitted := h.emitted
  have hcollected := h.collected
  refine ⟨?_, ?_, ?_, ?_, ?_, ?_, ?_⟩ <;> rw [hop.stats]
  · rw [Stats.sum_count_completed, ← hretired]
    rfl
  · rw [Stats.count_completed, ← hemitted]
    rfl
  · rw [hop.collected, hcollected]
    rfl
  · rw [hop.config]
    exact h.skipped
  · simp [Stats.completed, Stats.record]
    omega
  · rw [Stats.count_completed, hhlt]
    split <;> omega
  · rw [Stats.count_completed, hhlt, hop.halted, decide_eq_true_iff,
      ← Operation.instruction_eq_hlt_iff]
    split <;> simp [*]

theorem Accounted.step (h : m.Accounted faulted) :
    m.step.machine.Accounted (faulted + (stepFaults m.step.result).length) := by
  rcases hresult : m.step.result with fault | o
  · rw [stepFaults_of_ne (ne_stepLimit_of_step hresult)]
    exact h.fails hresult
  · cases m.stepCase with
    | idle _ heq =>
      rw [heq]
      exact h
    | undefinedSkip next _ _ policy _ heq =>
      rw [heq]
      exact h.passedOver next policy
    | executed i op done hrun hdec hres hperf heq =>
      exact h.completes (completes_of_perform hrun hdec hres hperf heq)
    | undefinedHalt _ _ _ heq | badRegister _ _ _ _ _ heq | refused _ _ _ _ _ _ _ heq =>
      rw [heq] at hresult
      cases hresult

/-- In every session of a collecting machine the counters add up, with as many failed steps as
faults were answered. -/
theorem counters_add_up {config : Config} {requests : List Request} {s : Session Collector}
    (h : (initial ({} : Collector) config).session requests = some s) :
    s.machine.config = config ∧ s.machine.Accounted s.faults.length := by
  refine session_invariant
    (P := fun m faults => m.config = config ∧ m.Accounted faults.length) ?_ ?_
    ⟨rfl, accounted_initial config⟩ h
  · rintro m faults ⟨hconfig, hm⟩
    rw [List.length_append]
    exact ⟨(config_step m).trans hconfig, hm.step⟩
  · rintro m faults c ⟨hconfig, hm⟩
    exact ⟨hconfig, hm.retired, hm.emitted, hm.collected, hm.skipped, hm.steps, hm.once, hm.halted⟩

/-- A program is written byte by byte and run with interruptions: it prints a value, meets an
undefined opcode, and fails over a register that does not exist. -/
def interrupted : List Request :=
  [.setMemory 0 0x82, .setMemory 2 0x05, .setMemory 3 0x47, .setMemory 6 0x45, .setMemory 7 0x09,
    .runFor 2, .compute 0x82 0 0, .setRegister .stackPointer 0x07, .runFor 9, .setPc 0, .step, .run]

def lenient : Config :=
  { unknownInstruction := .skip, maxSteps := some 9 }

theorem counters_add_up_interrupted :
    ∃ s, (initial ({} : Collector) lenient).session interrupted = some s
      ∧ s.faults = [.invalidRegister 9 6] ∧ s.machine.stats.steps = 4 ∧ s.machine.Accounted 1 :=
  ⟨_, rfl, rfl, rfl, (@counters_add_up lenient interrupted _ rfl).2⟩

end Machine

end LS8
