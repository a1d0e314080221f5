import LS8.Proofs.Effect
import LS8.Proofs.Logging
import LS8.Proofs.Session
import Mathlib.Data.List.Forall2

/-!
# Halting is for good

Nothing that can be asked of a machine starts it again once it has halted. Steps and runs, whatever
limit they have, find nothing to do: they answer so, leave the machine as it is and log nothing.
The other requests may write to it, but not to its flag. And a machine that was running and has
halted did so in a step, which executed a halt or failed (`halting_permanent`).
-/

namespace LS8

/-- The answer of a halted machine to a request for steps. -/
def Request.idleAnswer : Request → Option Answer
  | .step => some (.stepped (.ok .halted))
  | .run => some (.ran (.ok ()))
  | .runFor _ => some (.ranFor (.ok 0))
  | .compute .. | .loadSource _ | .loadFile .. | .setRegister .. | .setMemory .. | .setPc _ => none

/-- A step with this result has executed a halt, or failed. -/
def EndsRunning (result : Except Fault Outcome) : Prop :=
  result = .ok (.executed .hlt) ∨ ∃ fault, result = .error fault

namespace Machine

variable {σ : Type}

/-! ## Requests for no steps -/

theorem exists_computed (core : Core) (opcode x y : UInt8) :
    ∃ result : Except Fault Registers, ∀ m : Machine σ, m.core = core →
      m.compute opcode x y = result.map fun registers => { m with registers } := by
  unfold compute
  rcases Operation.register x with index | r
  · exact ⟨.error (.invalidRegister index core.pc), by rintro m rfl; rfl⟩
  · rcases Operation.register y with index | s
    · exact ⟨.error (.invalidRegister index core.pc), by rintro m rfl; rfl⟩
    · refine ⟨(Arithmetic.execute opcode (core.registers.get r) (core.registers.get s)).map
        (core.registers.set r), ?_⟩
      rintro m rfl
      dsimp only [Machine.core]
      rcases Arithmetic.execute opcode (m.registers.get r) (m.registers.get s) <;> rfl

variable [OutputSink σ] {m : Machine σ} {request : Request}

/-- A request that asks for no steps is always served. What it answers, logs and makes of the core
depends on the core alone, and it changes nothing else. -/
theorem serve_of_no_steps (h : request.idleAnswer = none) (core : Core) :
    ∃ (answer : Answer) (c : Core) (log : List Event), untraced log = log ∧
      ∀ m : Machine σ, m.core = core → m.serve request
        = some ⟨answer, { m with registers := c.registers, memory := c.memory, pc := c.pc }, log⟩ := by
  cases request with
  | step | run | runFor _ => cases h
  | compute opcode x y =>
    obtain ⟨result, hresult⟩ := exists_computed (σ := σ) core opcode x y
    simp only [serve, run_computeInPlace]
    rcases result with fault | registers
    · refine ⟨.computed (.error fault), core, [], rfl, ?_⟩
      rintro m rfl
      rw [hresult m rfl]
      rfl
    · refine ⟨.computed (.ok ()), { core with registers }, [], rfl, ?_⟩
      rintro m rfl
      rw [hresult m rfl]
      rfl
  | loadSource source =>
    refine ⟨.loaded (core.memory.loadSource source).result,
      { core with memory := (core.memory.loadSource source).target }, _,
      core.memory.untraced_loadSource source, ?_⟩
    rintro m rfl
    rfl
  | loadFile path file =>
    refine ⟨.loaded (core.memory.loadFile path file).result,
      { core with memory := (core.memory.loadFile path file).target }, _,
      core.memory.untraced_loadFile path file, ?_⟩
    rintro m rfl
    rfl
  | setRegister r value =>
    refine ⟨.written, { core with registers := core.registers.set r value }, [], rfl, ?_⟩
    rintro m rfl
    rfl
  | setMemory address value =>
    refine ⟨.written, { core with memory := core.memory.write address value }, [], rfl, ?_⟩
    rintro m rfl
    rfl
  | setPc value =>
    refine ⟨.written, { core with pc := value }, [], rfl, ?_⟩
    rintro m rfl
    rfl

/-! ## A halted machine -/

theorem runFor_of_halted (h : m.halted = true) (limit : ℕ) : m.runFor limit = ⟨.ok 0, m, []⟩ := by
  cases limit <;> simp [runFor, runWithin, h]

theorem run_of_halted (h : m.halted = true) : m.run = some ⟨.ok (), m, []⟩ := by
  unfold run
  split
  · rw [runFor_of_halted h]
    rfl
  · rw [runToHalt, if_pos h]

theorem serve_of_halted (h : m.halted = true) {answer : Answer}
    (hanswer : request.idleAnswer = some answer) : m.serve request = some ⟨answer, m, []⟩ := by
  cases request with
  | step =>
    cases hanswer
    rw [serve, step_of_halted h]
  | run =>
    cases hanswer
    rw [serve, run_of_halted h, Option.map_some]
  | runFor limit =>
    cases hanswer
    rw [serve, runFor_of_halted h]
  | _ => cases hanswer

theorem exists_reply_of_halted (h : m.halted = true) (request : Request) : ∃ reply,
    m.serve request = some reply ∧ reply.machine.halted = true
      ∧ ∀ answer, request.idleAnswer = some answer → reply.answer = answer := by
  rcases hanswer : request.idleAnswer with _ | answer
  · obtain ⟨answer, c, log, -, hserve⟩ := serve_of_no_steps (σ := σ) hanswer m.core
    exact ⟨_, hserve m rfl, h, nofun⟩
  · refine ⟨_, serve_of_halted h hanswer, h, fun a ha => ?_⟩
    cases ha
    rfl

theorem session_of_halted : ∀ (requests : List Request) {m : Machine σ}, m.halted = true →
    ∃ s, m.session requests = some s ∧ s.machine.halted = true
      ∧ List.Forall₂ (fun request answer => ∀ a, request.idleAnswer = some a → answer = a)
        requests s.answers
  | [], m, h => ⟨{ machine := m }, rfl, h, .nil⟩
  | request :: rest, m, h => by
    obtain ⟨reply, hreply, hhalted, hanswer⟩ := exists_reply_of_halted h request
    obtain ⟨s, hs, hend, hanswers⟩ := session_of_halted rest hhalted
    exact ⟨_, session_cons_eq_some_iff.2 ⟨reply, s, hreply, hs, rfl⟩, hend, .cons hanswer hanswers⟩

/-! ## How a machine comes to halt -/

theorem result_ne_halted (hrun : m.halted = false) : m.step.result ≠ .ok .halted := by
  intro h
  cases m.stepCase with
  | idle hh _ => simp [hrun] at hh
  | _ =>
    rename_i heq
    rw [heq] at h
    cases h

theorem halted_step_iff (hrun : m.halted = false) :
    m.step.machine.halted = true ↔ EndsRunning m.step.result := by
  rw [halted_step]
  rcases hresult : m.step.result with fault | o
  · simp [halts, EndsRunning]
  · cases o with
    | executed i => simp [halts, EndsRunning]
    | halted => exact absurd hresult (result_ne_halted hrun)
    | skipped opcode pc => simp [halts, EndsRunning]

theorem EndsAt.endsRunning {k : ℕ} {r : Except Fault Unit} (h : m.EndsAt k r)
    (hrun : m.halted = false) :
    ∃ j, k = j + 1 ∧ (m.after j).halted = false ∧ EndsRunning (m.after j).step.result := by
  cases h with
  | halted ha hh =>
    cases k with
    | zero => simp [hrun] at hh
    | succ j =>
      have hbefore := (ha j (Nat.lt_succ_self j)).1
      rw [after_succ] at hh
      exact ⟨j, rfl, hbefore, (halted_step_iff hbefore).1 hh⟩
  | @faulted j fault ha hf => exact ⟨j, rfl, running_of_step_error hf, .inr ⟨fault, hf⟩⟩

/-- A request halts a running machine only with a step that ends the running. -/
theorem serve_halts {reply : Reply σ} (hrun : m.halted = false) (hs : m.serve request = some reply)
    (hh : reply.machine.halted = true) :
    ∃ j, reply.machine = m.after (j + 1) ∧ (m.after j).halted = false
      ∧ EndsRunning (m.after j).step.result := by
  have hends : ∀ {k r}, m.EndsAt k r → reply.machine = m.after k → ∃ j,
      reply.machine = m.after (j + 1) ∧ (m.after j).halted = false
        ∧ EndsRunning (m.after j).step.result := by
    rintro k r hends hmachine
    obtain ⟨j, rfl, hbefore, hresult⟩ := hends.endsRunning hrun
    exact ⟨j, hmachine, hbefore, hresult⟩
  rcases hanswer : request.idleAnswer with _ | answer
  · obtain ⟨answer, c, log, -, hserve⟩ := serve_of_no_steps (σ := σ) hanswer m.core
    obtain rfl := Option.some_inj.1 ((hserve m rfl).symm.trans hs)
    exact absurd hh (by simp [hrun])
  · cases request with
    | step =>
      cases hs
      exact ⟨0, rfl, hrun, (halted_step_iff hrun).1 hh⟩
    | run =>
      obtain ⟨report, hreport, rfl⟩ := Option.map_eq_some_iff.1 hs
      rcases run_cases hreport with ⟨k, r, hk, rfl⟩ | ⟨n, -, hrunning, rfl⟩
      · exact hends hk rfl
      · exact absurd hh (by simp [hrunning])
    | runFor limit =>
      cases hs
      rcases m.runFor_cases limit with ⟨k, -, r, hk, heq⟩ | ⟨-, hrunning, heq⟩
      · exact hends hk (by rw [heq])
      · rw [heq] at hh
        exact absurd hh (by simp [hrunning])
    | _ => cases hanswer

/-- The session came to a request that halted its machine, which was running until then. -/
theorem session_halts : ∀ {requests : List Request} {m : Machine σ} {s : Session σ},
    m.halted = false → m.session requests = some s → s.machine.halted = true →
      ∃ before request rest reached reply j, requests = before ++ request :: rest
        ∧ m.session before = some reached ∧ reached.machine.serve request = some reply
        ∧ reply.machine = reached.machine.after (j + 1)
        ∧ (reached.machine.after j).halted = false
        ∧ EndsRunning (reached.machine.after j).step.result
  | [], m, s, hrun, hs, hh => by
    cases hs
    exact absurd hh (by simp [hrun])
  | request :: rest, m, s, hrun, hs, hh => by
    obtain ⟨reply, s', hreply, hs', rfl⟩ := session_cons_eq_some_iff.1 hs
    rcases hnext : reply.machine.halted with _ | _
    · obtain ⟨before, request', rest', reached, reply', j, rfl, hreached, hserved⟩ :=
        session_halts hnext hs' hh
      exact ⟨request :: before, request', rest', _, reply', j, rfl,
        session_cons_eq_some_iff.2 ⟨reply, reached, hreply, hreached, rfl⟩, hserved⟩
    · obtain ⟨j, hj⟩ := serve_halts hrun hreply hnext
      exact ⟨[], request, rest, { machine := m }, reply, j, rfl, rfl, hreply, hj⟩

/-- A machine that has halted stays so whatever it is asked for, and steps and runs of it do
nothing; a machine that is running halts only by a step that executes a halt or fails. -/
theorem halting_permanent (m : Machine σ) (requests : List Request) :
    (m.halted = true → ∃ s, m.session requests = some s ∧ s.machine.halted = true
        ∧ List.Forall₂ (fun request answer => ∀ a, request.idleAnswer = some a → answer = a)
          requests s.answers
        ∧ s.machine.step = ⟨.ok .halted, s.machine, []⟩
        ∧ s.machine.run = some ⟨.ok (), s.machine, []⟩
        ∧ ∀ n, s.machine.runFor n = ⟨.ok 0, s.machine, []⟩)
      ∧ (m.halted = false →
        (m.step.machine.halted = true ↔ EndsRunning m.step.result)
          ∧ ∀ s, m.session requests = some s → s.machine.halted = true →
            ∃ before request rest reached reply j, requests = before ++ request :: rest
              ∧ m.session before = some reached ∧ reached.machine.serve request = some reply
              ∧ reply.machine = reached.machine.after (j + 1)
              ∧ (reached.machine.after j).halted = false
              ∧ EndsRunning (reached.machine.after j).step.result) := by
  refine ⟨fun h => ?_, fun h => ⟨halted_step_iff h, fun s => session_halts h⟩⟩
  obtain ⟨s, hs, hhalted, hanswers⟩ := session_of_halted requests h
  exact ⟨s, hs, hhalted, hanswers, step_of_halted hhalted, run_of_halted hhalted,
    runFor_of_halted hhalted⟩

/-- A machine that met an undefined opcode in its first step and may take none in a run. -/
def failedAtOnce : Machine Collector :=
  (initial ({} : Collector) { maxSteps := some 0 }).step.machine

/-- A halt is written to where the program counter is set then, and there are runs. -/
def writesHalt : List Request :=
  [.setMemory 5 1, .compute 0xA0 0 7, .setPc 5, .run, .step, .runFor 0]

theorem halting_permanent_writesHalt :
    failedAtOnce.halted = true
      ∧ (∃ s, failedAtOnce.session writesHalt = some s ∧ s.machine.halted = true
        ∧ s.machine.pc = 5 ∧ s.machine.run = some ⟨.ok (), s.machine, []⟩)
      ∧ (initial ({} : Collector) { maxSteps := some 3 }).halted = false
      ∧ ∃ s, (initial ({} : Collector) { maxSteps := some 3 }).session writesHalt = some s
        ∧ s.machine.halted = true
        ∧ ∃ (reached : Session Collector) (j : ℕ), (reached.machine.after j).halted = false
          ∧ EndsRunning (reached.machine.after j).step.result := by
  obtain ⟨s, hs, hhalted, -, -, hrun, -⟩ := (halting_permanent failedAtOnce writesHalt).1 rfl
  have hpc : s.machine.pc = 5 := by
    have hsome : failedAtOnce.session writesHalt = some _ := rfl
    obtain rfl := Option.some_inj.1 (hsome.symm.trans hs)
    rfl
  obtain ⟨-, hhalts⟩ :=
    (halting_permanent (initial ({} : Collector) { maxSteps := some 3 }) writesHalt).2 rfl
  obtain ⟨_, _, _, reached, _, j, -, -, -, -, hrunning, hends⟩ := hhalts _ rfl rfl
  exact ⟨rfl, ⟨s, hs, hhalted, hpc, hrun⟩, rfl, _, rfl, rfl, reached, j, hrunning, hends⟩

end Machine

end LS8
