import LS8.Proofs.Effect
import LS8.Proofs.Refusal

/-!
# Two policies for undefined opcodes

The policy takes part in a step only where the opcode at the program counter is undefined, so
everywhere else two machines that differ in it make the same report (`step_withPolicy`). A machine
that goes past undefined opcodes and one that halts on them therefore run alike until the first of
these is passed over; there the second one halts over the same byte, with what it had computed and
printed, while the first one goes on and can only print more (`policies_agree`).
-/

namespace LS8

open RecordingSink

namespace Machine

variable {σ : Type}

/-- The machine under a policy of its own for undefined opcodes. -/
def withPolicy (m : Machine σ) (policy : Policy) : Machine σ :=
  { m with config := { m.config with unknownInstruction := policy } }

end Machine

def Report.withPolicy {σ α : Type} (r : Report σ α) (policy : Policy) : Report σ α :=
  { r with machine := r.machine.withPolicy policy }

namespace Machine

variable {σ : Type}

/-- The machines differ in the policy alone: the first one halts on undefined opcodes, and the
second one passes over them. -/
structure DiffersInPolicy (halting skipping : Machine σ) : Prop where
  skips : skipping.config.unknownInstruction = .skip
  same : halting = skipping.withPolicy .halt

variable [OutputSink σ]

/-- The first `n` steps pass over no opcode. -/
def SkipsNothing (m : Machine σ) (n : ℕ) : Prop :=
  ∀ k < n, ∀ opcode pc, (m.after k).step.result ≠ .ok (.skipped opcode pc)

/-! ## One step -/

theorem perform_withPolicy (m : Machine σ) (policy : Policy) (next : UInt8) (op : Operation) :
    (m.withPolicy policy).perform next op
      = ((m.perform next op).1, (m.perform next op).2.withPolicy policy) := by
  cases op
  case print r =>
    simp only [perform, withPolicy]
    rcases OutputSink.emit (m.registers.get r) m.sink with ⟨_ | _, sink⟩ <;> rfl
  all_goals rfl

theorem execute_withPolicy (m : Machine σ) (policy : Policy) (i : Instruction) (a b : UInt8) :
    (m.withPolicy policy).execute i a b = (m.execute i a b).withPolicy policy := by
  unfold execute
  rcases Operation.resolve i a b with index | op
  · rfl
  · have hperf := m.perform_withPolicy policy (m.pc + i.size) op
    simp only [show (m.withPolicy policy).pc = m.pc from rfl, hperf]
    rcases m.perform (m.pc + i.size) op with ⟨_ | _, done⟩ <;> rfl

/-- Where a machine meets no undefined opcode, the policy does not show in the step. -/
theorem step_withPolicy {m : Machine σ} (policy : Policy)
    (h : m.halted = false → ∃ i, Instruction.decode (m.fetch 0) = some i) :
    (m.withPolicy policy).step = m.step.withPolicy policy := by
  rcases hrun : m.halted with _ | _
  · obtain ⟨i, hdec⟩ := h hrun
    have hcounted : (m.withPolicy policy).counted = m.counted.withPolicy policy := rfl
    rw [step_of_decode hrun hdec, step_of_decode (m := m.withPolicy policy) hrun hdec, hcounted]
    exact congrArg (Report.after m.traceEvents)
      (m.counted.execute_withPolicy policy i (m.fetch 1) (m.fetch 2))
  · rw [step_of_halted hrun, step_of_halted (m := m.withPolicy policy) hrun]
    rfl

theorem exists_decode_of_not_skipped {m : Machine σ} (hskip : m.config.unknownInstruction = .skip)
    (h : ∀ opcode pc, m.step.result ≠ .ok (.skipped opcode pc)) (hrun : m.halted = false) :
    ∃ i, Instruction.decode (m.fetch 0) = some i := by
  rcases hdec : Instruction.decode (m.fetch 0) with _ | i
  · rw [step_of_undefined_skip hrun hdec hskip] at h
    exact absurd rfl (h _ _)
  · exact ⟨i, rfl⟩

theorem undefined_of_skipped {m : Machine σ} {opcode pc : UInt8}
    (h : m.step.result = .ok (.skipped opcode pc)) :
    m.halted = false ∧ Instruction.decode (m.fetch 0) = none ∧ opcode = m.fetch 0 ∧ pc = m.pc := by
  cases m.stepCase with
  | undefinedSkip next hrun hundef _ _ heq =>
    rw [heq] at h
    cases h
    exact ⟨hrun, hundef, rfl, rfl⟩
  | idle _ heq | undefinedHalt _ _ _ heq | badRegister _ _ _ _ _ heq
  | refused _ _ _ _ _ _ _ heq | executed _ _ _ _ _ _ _ heq =>
    rw [heq] at h
    cases h

/-- What has been printed stays printed. -/
theorem values_kept_step [RecordingSink σ] (m : Machine σ) :
    values m.sink <+: values m.step.machine.sink := by
  rw [sink_step]
  rcases m.handsOut with _ | v
  · exact List.prefix_refl _
  · rw [Option.elim_some]
    rcases hemit : OutputSink.emit v m.sink with ⟨_ | _, next⟩
    · exact ⟨[], by rw [values_of_refuses hemit, List.append_nil]⟩
    · rw [values_of_accepts hemit]
      exact List.prefix_append _ _

variable {halting skipping : Machine σ}

theorem DiffersInPolicy.step (h : halting.DiffersInPolicy skipping)
    (hskip : ∀ opcode pc, skipping.step.result ≠ .ok (.skipped opcode pc)) :
    halting.step.result = skipping.step.result
      ∧ halting.step.machine.DiffersInPolicy skipping.step.machine := by
  have hstep := step_withPolicy .halt (exists_decode_of_not_skipped h.skips hskip)
  rw [h.same, hstep]
  exact ⟨rfl, by rw [config_step, h.skips], rfl⟩

/-- Where one machine passes over an opcode, the other one halts as it stands. -/
theorem DiffersInPolicy.parts (h : halting.DiffersInPolicy skipping) {opcode pc : UInt8}
    (hskip : skipping.step.result = .ok (.skipped opcode pc)) :
    halting.step.result = .error (.unknownInstruction opcode pc)
      ∧ halting.step.machine = halting.failed halting.sink := by
  obtain ⟨hrun, hundef, rfl, rfl⟩ := undefined_of_skipped hskip
  rw [h.same, step_of_undefined_halt (m := skipping.withPolicy .halt) hrun hundef rfl]
  exact ⟨rfl, rfl⟩

/-! ## Runs -/

theorem values_kept_after [RecordingSink σ] (m : Machine σ) {j n : ℕ} (h : j ≤ n) :
    values (m.after j).sink <+: values (m.after n).sink := by
  induction h with
  | refl => exact List.prefix_refl _
  | @step n _ ih =>
    rw [after_succ]
    exact ih.trans (m.after n).values_kept_step

theorem DiffersInPolicy.after (h : halting.DiffersInPolicy skipping) {n : ℕ}
    (hskips : skipping.SkipsNothing n) :
    ∀ k ≤ n, (halting.after k).DiffersInPolicy (skipping.after k)
  | 0, _ => h
  | k + 1, hk => by
    rw [after_succ, after_succ]
    exact ((h.after hskips k (by omega)).step (hskips k hk)).2

/-- A run that passes over an opcode does so for the first time in some step. -/
theorem exists_first_skip {m : Machine σ} : ∀ {n : ℕ}, ¬ m.SkipsNothing n →
    ∃ j < n, m.SkipsNothing j ∧ ∃ opcode pc, (m.after j).step.result = .ok (.skipped opcode pc)
  | 0, h => absurd (fun _ hk => absurd hk (Nat.not_lt_zero _)) h
  | n + 1, h => by
    by_cases hn : m.SkipsNothing n
    · refine ⟨n, by omega, hn, ?_⟩
      by_contra hnone
      refine h fun k hk opcode pc hskip => ?_
      by_cases hkn : k < n
      · exact hn k hkn opcode pc hskip
      · obtain rfl : k = n := by omega
        exact hnone ⟨opcode, pc, hskip⟩
    · obtain ⟨j, hj, hfirst⟩ := exists_first_skip hn
      exact ⟨j, by omega, hfirst⟩

/-- The policies for undefined opcodes agree until the first of these is passed over. There the
machine that halts on it stays for ever, with a prefix of what the other one prints. -/
theorem policies_agree [RecordingSink σ] (h : halting.DiffersInPolicy skipping) (n : ℕ) :
    (skipping.SkipsNothing n →
        (∀ k ≤ n, (halting.after k).DiffersInPolicy (skipping.after k))
          ∧ ∀ k < n, (halting.after k).step.result = (skipping.after k).step.result)
      ∧ (¬ skipping.SkipsNothing n →
        ∃ j < n, ∃ opcode pc, skipping.SkipsNothing j
          ∧ (skipping.after j).step.result = .ok (.skipped opcode pc)
          ∧ (∀ k ≤ j, (halting.after k).DiffersInPolicy (skipping.after k))
          ∧ (∀ k < j, (halting.after k).step.result = (skipping.after k).step.result)
          ∧ (halting.after j).step.result = .error (.unknownInstruction opcode pc)
          ∧ ∀ i, j < i → halting.after i = (halting.after j).failed (halting.after j).sink
            ∧ values (halting.after i).sink <+: values (skipping.after i).sink) := by
  have hresults : ∀ n, skipping.SkipsNothing n → ∀ k < n,
      (halting.after k).step.result = (skipping.after k).step.result := fun n hn k hk =>
    ((h.after hn k (Nat.le_of_lt hk)).step (hn k hk)).1
  refine ⟨fun hn => ⟨h.after hn, hresults n hn⟩, fun hn => ?_⟩
  obtain ⟨j, hj, hfirst, opcode, pc, hskip⟩ := exists_first_skip hn
  have hsame := h.after hfirst
  obtain ⟨hresult, hmachine⟩ := (hsame j (Nat.le_refl j)).parts hskip
  refine ⟨j, hj, opcode, pc, hfirst, hskip, hsame, hresults j hfirst, hresult, fun i hi => ?_⟩
  have hlater := after_of_refused hmachine hi
  refine ⟨hlater, ?_⟩
  have hsink : (halting.after i).sink = (skipping.after j).sink := by
    rw [hlater, (hsame j (Nat.le_refl j)).same]
    rfl
  rw [hsink]
  exact skipping.values_kept_after (Nat.le_of_lt hi)

/-- A load, a print, and a push over the halt that comes next: in its place there is an undefined
opcode then, with a print and a halt behind it. -/
def overwritesHalt (policy : Policy) : Machine Collector :=
  let code := [(0, 0x82), (2, 0x05), (3, 0x47), (5, 0x45), (7, 0x01), (8, 0x47), (10, 0x01)]
  { initial ({} : Collector) { unknownInstruction := policy, initialSp := 8 } with
    memory := code.foldl (fun memory cell => memory.write cell.1 cell.2) Memory.zero }

theorem policies_agree_overwritesHalt :
    (overwritesHalt .halt).DiffersInPolicy (overwritesHalt .skip)
      ∧ (overwritesHalt .skip).SkipsNothing 3
      ∧ ((overwritesHalt .halt).after 2).step.result = ((overwritesHalt .skip).after 2).step.result
      ∧ ¬ (overwritesHalt .skip).SkipsNothing 6
      ∧ ((overwritesHalt .halt).after 3).step.result = .error (.unknownInstruction 5 7)
      ∧ values ((overwritesHalt .skip).after 6).sink = [5, 5]
      ∧ values ((overwritesHalt .halt).after 6).sink <+: [5, 5] := by
  have hdiffers : (overwritesHalt .halt).DiffersInPolicy (overwritesHalt .skip) := ⟨rfl, rfl⟩
  have hskips : ((overwritesHalt .skip).after 3).step.result = .ok (.skipped 5 7) := rfl
  have hnothing : (overwritesHalt .skip).SkipsNothing 3
    | 0, _, _, _ | 1, _, _, _ | 2, _, _, _ => nofun
  have hsomething : ¬ (overwritesHalt .skip).SkipsNothing 6 := fun h => h 3 (by omega) 5 7 hskips
  have hprinted : values ((overwritesHalt .skip).after 6).sink = [5, 5] := rfl
  obtain ⟨j, -, opcode, pc, hfirst, hskip, -, -, hresult, hlater⟩ :=
    (policies_agree hdiffers 6).2 hsomething
  obtain rfl : j = 3 := by
    have hle : ¬ 3 < j := fun hj => hfirst 3 hj 5 7 hskips
    have hge : ¬ j < 3 := fun hj => hnothing j hj opcode pc hskip
    omega
  rw [hskips] at hskip
  cases hskip
  have hprefix := (hlater 6 (by omega)).2
  rw [hprinted] at hprefix
  exact ⟨hdiffers, hnothing, ((policies_agree hdiffers 3).1 hnothing).2 2 (by omega), hsomething,
    hresult, hprinted, hprefix⟩

end Machine

end LS8
