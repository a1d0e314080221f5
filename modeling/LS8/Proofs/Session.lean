import LS8.Loading
import LS8.Proofs.Core
import LS8.Proofs.Run

/-!
# Sessions

Whoever holds a machine steps it, runs it, computes with its registers, loads programs into it and
writes to its registers, memory and program counter, in any order. A session is such a sequence of
requests with what the machine answered. It comes to its end unless one of its runs does not.

A computation asked for directly is served on the machine as it stands, one check after the other,
so what a failing one leaves behind is a matter of proof: nothing (`run_computeInPlace`). All other
requests take steps or write to what the machine computes with, so what both keep holds wherever a
session ends (`session_invariant`).
-/

namespace LS8

/-- What a machine can be asked for from outside. -/
inductive Request where
  | step
  | run
  | runFor (limit : Nat)
  | compute (opcode a b : UInt8)
  | loadSource (source : Source)
  | loadFile (path : String) (file : OpenedFile)
  | setRegister (r : Register) (value : UInt8)
  | setMemory (address value : UInt8)
  | setPc (value : UInt8)

inductive Answer where
  | stepped (result : Except Fault Outcome)
  | ran (result : Except Fault Unit)
  | ranFor (result : Except Fault Nat)
  | computed (result : Except Fault Unit)
  | loaded (result : Except LoadError Nat)
  | written

/-- The faults of steps that a result reports; no step has failed where only a limit was reached. -/
def stepFaults {α : Type} : Except Fault α → List Fault
  | .ok _ | .error (.stepLimitExceeded _) => []
  | .error fault => [fault]

/-- The faults of steps that an answer reports; a computation asked for directly is not a step. -/
def Answer.faults : Answer → List Fault
  | .stepped result => stepFaults result
  | .ran result => stepFaults result
  | .ranFor result => stepFaults result
  | .computed _ | .loaded _ | .written => []

structure Reply (σ : Type) where
  answer : Answer
  machine : Machine σ
  events : List Event

/-- The answers to a sequence of requests, with the machine afterwards and the whole log. -/
structure Session (σ : Type) where
  machine : Machine σ
  answers : List Answer := []
  events : List Event := []

def Session.faults {σ : Type} (s : Session σ) : List Fault :=
  s.answers.flatMap Answer.faults

theorem stepFaults_map {α β : Type} (f : α → β) (r : Except Fault α) :
    stepFaults (r.map f) = stepFaults r := by
  rcases r with fault | a
  · cases fault <;> rfl
  · rfl

theorem stepFaults_of_ne {α : Type} {fault : Fault}
    (h : ∀ limit, fault ≠ .stepLimitExceeded limit) :
    stepFaults (.error fault : Except Fault α) = [fault] := by
  cases fault
  case stepLimitExceeded limit => exact absurd rfl (h limit)
  all_goals rfl

namespace Machine

variable {σ : Type}

/-- The register that an operand byte names, while the machine is changed in place. -/
def operand (byte : UInt8) : EStateM Fault (Machine σ) Register := do
  match Operation.register byte with
  | .error index => throw (.invalidRegister index (← get).pc)
  | .ok r => return r

/-- Computes on two registers given by index, into the first, and changes the machine in place. -/
def computeInPlace (opcode a b : UInt8) : EStateM Fault (Machine σ) Unit := do
  let r ← operand a
  let s ← operand b
  let m ← get
  match Arithmetic.execute opcode (m.registers.get r) (m.registers.get s) with
  | .error fault => throw fault
  | .ok value => set { m with registers := m.registers.set r value }

theorem run_operand (m : Machine σ) (byte : UInt8) :
    (operand byte).run m = match Operation.register byte with
      | .error index => .error (.invalidRegister index m.pc) m
      | .ok r => .ok r m := by
  unfold operand
  split <;> rfl

theorem run_computeInPlace (m : Machine σ) (opcode a b : UInt8) :
    (computeInPlace opcode a b).run m = match m.compute opcode a b with
      | .error fault => .error fault m
      | .ok after => .ok () after := by
  have ha := run_operand m a
  have hb := run_operand m b
  simp only [EStateM.run] at ha hb
  simp only [computeInPlace, compute, EStateM.run, bind, EStateM.bind, ha]
  rcases Operation.register a with index | r
  · rfl
  · simp only [hb]
    rcases Operation.register b with index | s
    · rfl
    · dsimp only
      change (match Arithmetic.execute opcode (m.registers.get r) (m.registers.get s) with
          | .error fault => throw fault
          | .ok value => set { m with registers := m.registers.set r value } :
            EStateM Fault (Machine σ) Unit) m = _
      rcases Arithmetic.execute opcode (m.registers.get r) (m.registers.get s) <;> rfl

theorem compute_ok {m after : Machine σ} {opcode a b : UInt8}
    (h : m.compute opcode a b = .ok after) : ∃ registers, after = { m with registers } := by
  unfold compute at h
  split at h
  · cases h
  · cases h
  · split at h <;> cases h
    exact ⟨_, rfl⟩

variable [OutputSink σ]

/-- Does what a request asks for; nothing comes of a run that does not end. -/
def serve (m : Machine σ) : Request → Option (Reply σ)
  | .step =>
    let r := m.step
    some ⟨.stepped r.result, r.machine, r.events⟩
  | .run => m.run.map fun r => ⟨.ran r.result, r.machine, r.events⟩
  | .runFor limit =>
    let r := m.runFor limit
    some ⟨.ranFor r.result, r.machine, r.events⟩
  | .compute opcode a b =>
    match (computeInPlace opcode a b).run m with
    | .error fault after => some ⟨.computed (.error fault), after, []⟩
    | .ok () after => some ⟨.computed (.ok ()), after, []⟩
  | .loadSource source =>
    let l := m.loadSource source
    some ⟨.loaded l.result, l.target, l.events⟩
  | .loadFile path file =>
    let l := m.loadFile path file
    some ⟨.loaded l.result, l.target, l.events⟩
  | .setRegister r value =>
    some ⟨.written, { m with registers := m.registers.set r value }, []⟩
  | .setMemory address value =>
    some ⟨.written, { m with memory := m.memory.write address value }, []⟩
  | .setPc value => some ⟨.written, { m with pc := value }, []⟩

def session (m : Machine σ) : List Request → Option (Session σ)
  | [] => some { machine := m }
  | request :: rest => do
    let reply ← m.serve request
    let s ← reply.machine.session rest
    return { s with answers := reply.answer :: s.answers, events := reply.events ++ s.events }

theorem session_cons_eq_some_iff {m : Machine σ} {request : Request} {rest : List Request}
    {s : Session σ} :
    m.session (request :: rest) = some s
      ↔ ∃ reply s', m.serve request = some reply ∧ reply.machine.session rest = some s'
        ∧ s = ⟨s'.machine, reply.answer :: s'.answers, reply.events ++ s'.events⟩ := by
  simp only [session, Option.bind_eq_bind, Option.bind_eq_some_iff, Option.pure_def,
    Option.some_inj]
  refine ⟨?_, ?_⟩
  · rintro ⟨reply, hreply, s', hs', rfl⟩
    exact ⟨reply, s', hreply, hs', rfl⟩
  · rintro ⟨reply, s', hreply, hs', rfl⟩
    exact ⟨reply, hreply, s', hs', rfl⟩

section Invariant

variable {P : Machine σ → List Fault → Prop}
  (hstep : ∀ m faults, P m faults → P m.step.machine (faults ++ stepFaults m.step.result))
  (hwrite : ∀ m faults (c : Core), P m faults →
    P { m with registers := c.registers, memory := c.memory, pc := c.pc } faults)

include hstep

theorem after_invariant {m : Machine σ} {faults : List Fault} (h : P m faults) {n : ℕ}
    (ha : m.Advances n) : P (m.after n) faults := by
  induction n with
  | zero => exact h
  | succ n ih =>
    obtain ⟨-, o, ho⟩ := ha n (by omega)
    have hnext := hstep _ _ (ih fun k hk => ha k (by omega))
    rw [ho] at hnext
    rw [after_succ]
    simpa [stepFaults] using hnext

theorem endsAt_invariant {m : Machine σ} {faults : List Fault} {k : ℕ} {r : Except Fault Unit}
    (h : P m faults) (hends : m.EndsAt k r) : P (m.after k) (faults ++ stepFaults r) := by
  cases hends with
  | halted ha _ => simpa [stepFaults] using after_invariant hstep h ha
  | @faulted k fault ha hf =>
    have hnext := hstep _ _ (after_invariant hstep h ha)
    rw [hf, stepFaults_of_ne (ne_stepLimit_of_step hf)] at hnext
    rw [after_succ, stepFaults_of_ne (ne_stepLimit_of_step hf)]
    exact hnext

include hwrite

theorem serve_invariant {m : Machine σ} {faults : List Fault} {request : Request}
    {reply : Reply σ} (h : P m faults) (hs : m.serve request = some reply) :
    P reply.machine (faults ++ reply.answer.faults) := by
  have hkeep : ∀ c : Core, P { m with registers := c.registers, memory := c.memory, pc := c.pc }
      (faults ++ []) := fun c => by simpa using hwrite m faults c h
  cases request with
  | step =>
    cases hs
    exact hstep m faults h
  | run =>
    obtain ⟨report, hrun, rfl⟩ := Option.map_eq_some_iff.1 hs
    rcases run_cases hrun with ⟨k, r, hends, rfl⟩ | ⟨n, ha, -, rfl⟩
    · exact endsAt_invariant hstep h hends
    · simpa [Answer.faults, stepFaults] using after_invariant hstep h ha
  | runFor limit =>
    cases hs
    rcases m.runFor_cases limit with ⟨k, -, r, hends, heq⟩ | ⟨ha, -, heq⟩
    · rw [heq]
      simpa [Answer.faults, stepFaults_map] using endsAt_invariant hstep h hends
    · rw [heq]
      simpa [Answer.faults, stepFaults] using after_invariant hstep h ha
  | compute opcode a b =>
    simp only [serve, run_computeInPlace] at hs
    rcases hc : m.compute opcode a b with fault | after <;> rw [hc] at hs <;> cases hs
    · exact hkeep m.core
    · obtain ⟨registers, rfl⟩ := compute_ok hc
      exact hkeep ⟨registers, m.memory, m.pc⟩
  | loadSource source =>
    cases hs
    exact hkeep ⟨m.registers, (m.memory.loadSource source).target, m.pc⟩
  | loadFile path file =>
    cases hs
    exact hkeep ⟨m.registers, (m.memory.loadFile path file).target, m.pc⟩
  | setRegister r value =>
    cases hs
    exact hkeep ⟨m.registers.set r value, m.memory, m.pc⟩
  | setMemory address value =>
    cases hs
    exact hkeep ⟨m.registers, m.memory.write address value, m.pc⟩
  | setPc value =>
    cases hs
    exact hkeep ⟨m.registers, m.memory, value⟩

/-- What steps and writes keep, with the faults of the steps, holds wherever a session ends. -/
theorem session_invariant {m : Machine σ} {requests : List Request} {s : Session σ} (h : P m [])
    (hs : m.session requests = some s) : P s.machine s.faults := by
  suffices hfrom : ∀ faults, P m faults → P s.machine (faults ++ s.faults) from hfrom [] h
  clear h
  induction requests generalizing m s with
  | nil =>
    cases hs
    intro faults h
    simpa [Session.faults] using h
  | cons request rest ih =>
    obtain ⟨reply, s', hreply, hs', rfl⟩ := session_cons_eq_some_iff.1 hs
    intro faults h
    have hnext := ih hs' _ (serve_invariant hstep hwrite h hreply)
    simpa [Session.faults] using hnext

end Invariant

end Machine

end LS8
