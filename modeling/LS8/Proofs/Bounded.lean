import LS8.Proofs.Core
import LS8.Proofs.Run

/-!
# Bounded runs

A run of at most `n` steps stops at the first of three things: the machine has halted, a step has
faulted, `n` steps are taken (`RunCase`). The three exclude each other, since a halted machine takes
no step and a fault halts, so the report is determined by the steps alone (`runFor_eq_iff`). So a
run that used up its steps can be taken up again where it stopped, a longer limit changes nothing
once the machine has halted, and a run without a limit reports what every long enough bounded run
reports (`runs_agree`).
-/

namespace LS8

/-- A result counted from the start of a run that had taken some steps before. -/
def countedFrom (taken : ℕ) : Except Fault ℕ → Except Fault ℕ
  | .ok k => .ok (taken + k)
  | .error (.stepLimitExceeded limit) => .error (.stepLimitExceeded (taken + limit))
  | .error fault => .error fault

namespace Report

variable {σ : Type}

/-- The report of a run that was taken up again after the one reported first. -/
def resumed (first : Report σ ℕ) (taken : ℕ) (second : Report σ ℕ) : Report σ ℕ where
  result := countedFrom taken second.result
  machine := second.machine
  events := first.events ++ second.events

def uncounted (r : Report σ ℕ) : Report σ Unit where
  result := r.result.map fun _ => ()
  machine := r.machine
  events := r.events

end Report

namespace Machine

variable {σ : Type} [OutputSink σ]

/-- The ways a run of at most `n` steps can go, each with the report it makes. -/
inductive RunCase (m : Machine σ) (n : ℕ) : Report σ ℕ → Prop
  | halted {k : ℕ} (le : k ≤ n) (advances : m.Advances k) (halted : (m.after k).halted = true) :
      m.RunCase n ⟨.ok k, m.after k, m.log k⟩
  | faulted {k : ℕ} {fault : Fault} (lt : k < n) (advances : m.Advances k)
      (failed : (m.after k).step.result = .error fault) :
      m.RunCase n ⟨.error fault, m.after (k + 1), m.log (k + 1)⟩
  | limited (advances : m.Advances n) (running : (m.after n).halted = false) :
      m.RunCase n ⟨.error (.stepLimitExceeded n), m.after n, m.log n⟩

variable {m : Machine σ}

/-! ## Reports of bounded runs -/

theorem runFor_of_endsAt {k n : ℕ} {r : Except Fault Unit} (h : m.EndsAt k r) (hk : k ≤ n) :
    m.runFor n = ⟨r.map fun _ => k, m.after k, m.log k⟩ := by
  rcases m.runFor_cases n with ⟨j, -, s, hends, heq⟩ | ⟨ha, hrun, -⟩
  · obtain ⟨rfl, rfl⟩ := h.unique hends
    exact heq
  · exact absurd (h.halted_of_advances hk ha).2 (by simp [hrun])

theorem runFor_of_running {n : ℕ} (ha : m.Advances n) (hrun : (m.after n).halted = false) :
    m.runFor n = ⟨.error (.stepLimitExceeded n), m.after n, m.log n⟩ := by
  rcases m.runFor_cases n with ⟨k, hk, r, hends, -⟩ | ⟨-, -, heq⟩
  · exact absurd (hends.halted_of_advances hk ha).2 (by simp [hrun])
  · exact heq

theorem runFor_eq_iff {n : ℕ} {report : Report σ ℕ} :
    m.runFor n = report ↔ m.RunCase n report := by
  constructor
  · rintro rfl
    rcases m.runFor_cases n with ⟨k, hk, r, hends, heq⟩ | ⟨ha, hrun, heq⟩
    · rw [heq]
      cases hends with
      | halted ha hh => exact .halted hk ha hh
      | faulted ha hf => exact .faulted hk ha hf
    · rw [heq]
      exact .limited ha hrun
  · intro h
    cases h with
    | halted hk ha hh => exact runFor_of_endsAt (.halted ha hh) hk
    | faulted hk ha hf => exact runFor_of_endsAt (.faulted ha hf) hk
    | limited ha hrun => exact runFor_of_running ha hrun

theorem EndsAt.result_ne_limit {k : ℕ} {r : Except Fault Unit} (h : m.EndsAt k r) (n limit : ℕ) :
    (r.map fun _ => n) ≠ .error (.stepLimitExceeded limit) := by
  intro hr
  cases h with
  | halted => cases hr
  | faulted _ hf =>
    cases hr
    exact ne_stepLimit_of_step hf limit rfl

theorem running_of_limit {n limit : ℕ}
    (h : (m.runFor n).result = .error (.stepLimitExceeded limit)) :
    m.Advances n ∧ (m.after n).halted = false := by
  rcases m.runFor_cases n with ⟨k, -, r, hends, heq⟩ | ⟨ha, hrun, -⟩
  · rw [heq] at h
    exact absurd h (hends.result_ne_limit k limit)
  · exact ⟨ha, hrun⟩

theorem endsAt_of_not_limit {n : ℕ}
    (h : (m.runFor n).result ≠ .error (.stepLimitExceeded n)) :
    ∃ k ≤ n, ∃ r, m.EndsAt k r ∧ m.runFor n = ⟨r.map fun _ => k, m.after k, m.log k⟩ := by
  rcases m.runFor_cases n with hends | ⟨-, -, heq⟩
  · exact hends
  · exact absurd (by rw [heq]) h

theorem endsAt_of_ok {n k : ℕ} (h : (m.runFor n).result = .ok k) : k ≤ n ∧ m.EndsAt k (.ok ()) := by
  obtain ⟨j, hj, r, hends, heq⟩ := endsAt_of_not_limit (m := m) (n := n) (by simp [h])
  rw [heq] at h
  rcases r with fault | _ <;> cases h
  exact ⟨hj, hends⟩

/-! ## Steps taken -/

theorem steps_step (hrun : m.halted = false) :
    m.step.machine.stats.steps = m.stats.steps + 1 := by
  cases m.stepCase with
  | idle hh _ => simp [hrun] at hh
  | executed i op done hrun hdec hres hperf heq =>
    rw [(completes_of_perform hrun hdec hres hperf heq).stats]
    rfl
  | undefinedHalt _ _ _ heq | undefinedSkip _ _ _ _ _ heq | badRegister _ _ _ _ _ heq
  | refused _ _ _ _ _ _ _ heq =>
    rw [heq]
    rfl

theorem steps_after : ∀ k : ℕ, (∀ i < k, (m.after i).halted = false) →
    (m.after k).stats.steps = m.stats.steps + k
  | 0, _ => rfl
  | k + 1, h => by
    have ih := steps_after k fun i hi => h i (by omega)
    rw [after_succ, steps_step (h k (by omega)), ih]
    omega

/-! ## Runs taken up again -/

theorem runFor_resumed {a : ℕ} (b : ℕ) (ha : m.Advances a)
    (hrun : (m.after a).halted = false) :
    m.runFor (a + b) = (m.runFor a).resumed a ((m.runFor a).machine.runFor b) := by
  rw [runFor_of_running ha hrun]
  rcases (m.after a).runFor_cases b with ⟨k, hk, r, hends, heq⟩ | ⟨hb, hrunning, heq⟩
  · have hwhole := runFor_of_endsAt (hends.of_advances ha) (Nat.add_le_add_left hk a)
    rw [hwhole, Report.resumed, heq, after_add, log_add]
    cases hends with
    | halted => rfl
    | @faulted k fault _ hf =>
      have hne := ne_stepLimit_of_step hf
      cases fault
      case stepLimitExceeded limit => exact absurd rfl (hne limit)
      all_goals rfl
  · have hadv : m.Advances (a + b) := advances_add_iff.2 ⟨ha, hb⟩
    rw [runFor_of_running hadv (by rwa [after_add]), Report.resumed, heq, after_add, log_add]
    rfl

theorem run_of_maxSteps {limit : UInt64} (h : m.config.maxSteps = some limit) :
    m.run = some (m.runFor limit.toNat).uncounted := by
  unfold run
  rw [h]
  rfl

theorem run_of_endsAt (h : m.config.maxSteps = none) {k : ℕ} {r : Except Fault Unit}
    (hends : m.EndsAt k r) : m.run = some ⟨r, m.after k, m.log k⟩ := by
  unfold run
  rw [h]
  exact runToHalt_eq_some_iff.2 ⟨k, r, hends, rfl⟩

/-- What a run as configured reports is what a run without a limit reports, or a bounded one. -/
theorem run_eq_some_cases {report : Report σ Unit} (h : m.run = some report) :
    (m.config.maxSteps = none
        ∧ ∃ k r, m.EndsAt k r ∧ report = ⟨r, m.after k, m.log k⟩)
      ∨ ∃ limit, m.config.maxSteps = some limit ∧ report = (m.runFor limit.toNat).uncounted := by
  rcases hmax : m.config.maxSteps with _ | limit
  · unfold Machine.run at h
    rw [hmax] at h
    exact .inl ⟨rfl, runToHalt_eq_some_iff.1 h⟩
  · rw [run_of_maxSteps hmax] at h
    exact .inr ⟨limit, rfl, (Option.some_inj.1 h).symm⟩

theorem run_eq_none (h : m.config.maxSteps = none)
    (hlimit : ∀ n, (m.runFor n).result = .error (.stepLimitExceeded n)) : m.run = none := by
  unfold run
  rw [h]
  by_contra hsome
  obtain ⟨report, hreport⟩ := Option.ne_none_iff_exists'.1 hsome
  obtain ⟨k, r, hends, -⟩ := runToHalt_eq_some_iff.1 hreport
  have hk := hlimit k
  rw [runFor_of_endsAt hends (Nat.le_refl k)] at hk
  exact hends.result_ne_limit k k hk

/-- Bounded, resumed and unbounded runs agree with the steps taken one by one, and every step taken
is counted. -/
theorem runs_agree (m : Machine σ) :
    (∀ n report, m.runFor n = report ↔ m.RunCase n report)
      ∧ (∀ k, (∀ i < k, (m.after i).halted = false) →
          (m.after k).stats.steps = m.stats.steps + k)
      ∧ (∀ a b, (m.runFor a).result = .error (.stepLimitExceeded a) →
          m.runFor (a + b) = (m.runFor a).resumed a ((m.runFor a).machine.runFor b))
      ∧ (∀ n k, (m.runFor n).result = .ok k →
          (∀ j, k ≤ j → m.runFor j = m.runFor n)
            ∧ ∀ j < k, (m.runFor j).result = .error (.stepLimitExceeded j))
      ∧ (∀ limit, m.config.maxSteps = some limit →
          m.run = some (m.runFor limit.toNat).uncounted)
      ∧ (m.config.maxSteps = none →
          (∀ n, (m.runFor n).result ≠ .error (.stepLimitExceeded n) →
            m.run = some (m.runFor n).uncounted)
          ∧ ((∀ n, (m.runFor n).result = .error (.stepLimitExceeded n)) → m.run = none)) := by
  refine ⟨fun n report => runFor_eq_iff, steps_after, fun a b h => ?_, fun n k h => ⟨?_, ?_⟩,
    fun limit => run_of_maxSteps, fun hnone => ⟨fun n h => ?_, run_eq_none hnone⟩⟩
  · obtain ⟨ha, hrun⟩ := running_of_limit h
    exact runFor_resumed b ha hrun
  · intro j hj
    obtain ⟨hkn, hends⟩ := endsAt_of_ok h
    rw [runFor_of_endsAt hends hj, runFor_of_endsAt hends hkn]
  · intro j hj
    obtain ⟨ha, hrun⟩ := (endsAt_of_ok h).2.running_before hj
    rw [runFor_of_running ha hrun]
  · obtain ⟨k, -, r, hends, heq⟩ := endsAt_of_not_limit h
    rw [run_of_endsAt hnone hends, heq]
    cases r <;> rfl

/-- A memory without a single opcode is passed over for ever. -/
theorem running_of_no_opcode : ∀ (n : ℕ) {m : Machine σ}, m.halted = false →
    m.config.unknownInstruction = .skip →
    (∀ a, Instruction.decode (m.memory.read a) = none) →
    m.Advances n ∧ (m.after n).halted = false
  | 0, m, hrun, _, _ => ⟨m.advances_zero, hrun⟩
  | n + 1, m, hrun, hskip, hundef => by
    cases m.stepCase with
    | undefinedSkip next _ _ _ _ heq =>
      have hnext : m.step.machine = m.passedOver next := by rw [heq]
      obtain ⟨ha, hrunning⟩ := running_of_no_opcode n (m := m.passedOver next) hrun hskip hundef
      refine ⟨advances_succ_iff.2 ⟨⟨hrun, _, by rw [heq]⟩, hnext ▸ ha⟩, ?_⟩
      rw [← after_step, hnext]
      exact hrunning
    | idle hh _ => simp [hrun] at hh
    | undefinedHalt _ _ hpol _ => simp [hskip] at hpol
    | badRegister _ _ _ hdec _ _ | refused _ _ _ _ hdec _ _ _ | executed _ _ _ _ hdec _ _ _ =>
      have hnone := hundef (m.pc + 0)
      unfold fetch at hdec
      rw [hnone] at hdec
      cases hdec

/-- A load, a print and a halt. -/
def printsFive (limit : Option UInt64) : Machine Collector :=
  let code := [(0, 0x82), (1, 0x00), (2, 0x05), (3, 0x47), (4, 0x00), (5, 0x01)]
  { initial ({} : Collector) { maxSteps := limit } with
    memory := code.foldl (fun memory cell => memory.write cell.1 cell.2) Memory.zero }

theorem runs_agree_printsFive :
    (printsFive none).runFor 5
        = ((printsFive none).runFor 2).resumed 2 (((printsFive none).runFor 2).machine.runFor 3)
      ∧ (printsFive none).runFor 9 = (printsFive none).runFor 3
      ∧ ((printsFive none).runFor 2).result = .error (.stepLimitExceeded 2)
      ∧ (printsFive (some 2)).run = some ((printsFive (some 2)).runFor 2).uncounted
      ∧ (printsFive none).run = some ((printsFive none).runFor 3).uncounted
      ∧ (initial ({} : Collector) { unknownInstruction := .skip }).run = none := by
  obtain ⟨-, -, hresumed, hok, -, hunbounded⟩ := runs_agree (printsFive none)
  have hthree : ((printsFive none).runFor 3).result = .ok 3 := rfl
  obtain ⟨hlonger, hshorter⟩ := hok 3 3 hthree
  refine ⟨hresumed 2 3 rfl, hlonger 9 (by omega), hshorter 2 (by omega),
    (runs_agree (printsFive (some 2))).2.2.2.2.1 2 rfl,
    (hunbounded rfl).1 3 (by rw [hthree]; nofun), ?_⟩
  refine ((runs_agree _).2.2.2.2.2 rfl).2 fun n => ?_
  have hundef : ∀ a, Instruction.decode (Memory.zero.read a) = none := by
    intro a
    rw [Memory.read_zero]
    rfl
  obtain ⟨ha, hrun⟩ := running_of_no_opcode n
    (m := initial ({} : Collector) { unknownInstruction := .skip }) rfl rfl hundef
  rw [runFor_of_running ha hrun]

end Machine

end LS8
