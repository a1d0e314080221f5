import LS8.Loading
import LS8.Proofs.Step

/-!
# What a step logs

A step of a running machine shows the machine as it found it, where this is asked for, and then it
has at most one thing to report: a halt, an undefined opcode or a fault (`events_step`). What it
reports follows from its result and the instruction at the program counter, so it is the same with
the traces and without.
-/

namespace LS8

/-- The log without its traces. -/
def untraced (log : List Event) : List Event :=
  log.filter fun e => e.level ≠ .trace

theorem untraced_append (l₁ l₂ : List Event) : untraced (l₁ ++ l₂) = untraced l₁ ++ untraced l₂ :=
  List.filter_append ..

namespace Memory

theorem untraced_loadSource (m : Memory) (source : Source) :
    untraced (m.loadSource source).events = (m.loadSource source).events := by
  unfold loadSource
  split <;> rfl

theorem untraced_loadFile (m : Memory) (path : String) (file : OpenedFile) :
    untraced (m.loadFile path file).events = (m.loadFile path file).events := by
  unfold loadFile
  split
  · rfl
  · rename_i source
    exact congrArg (Event.loading path :: ·) (m.untraced_loadSource source)

end Memory

namespace Machine

variable {σ : Type}

/-- What a step of the machine that has this result logs behind the trace. -/
def notices (m : Machine σ) : Except Fault Outcome → List Event
  | .ok (.executed i) => if i = .hlt then [.halted m.pc] else []
  | .ok (.skipped opcode pc) => [.undefinedSkip opcode pc (pc + encodedLength opcode)]
  | .ok .halted => []
  | .error fault =>
    match Instruction.decode (m.fetch 0) with
    | some i => [.faulted m.pc i fault]
    | none => [.undefinedHalt (m.fetch 0) m.pc]

theorem notices_congr {a b : Machine σ} (hpc : a.pc = b.pc) (hopcode : a.fetch 0 = b.fetch 0) :
    a.notices = b.notices := by
  funext result
  unfold notices
  rw [hpc, hopcode]

theorem untraced_notices (m : Machine σ) (result : Except Fault Outcome) :
    untraced (m.notices result) = m.notices result := by
  unfold notices
  split
  · split <;> rfl
  · rfl
  · rfl
  · split <;> rfl

theorem untraced_traceEvents (m : Machine σ) : untraced m.traceEvents = [] := by
  unfold traceEvents
  split <;> rfl

/-- The traces of a machine before its step, if it takes one. -/
def traces (m : Machine σ) : List Event :=
  if m.halted then [] else m.traceEvents

theorem untraced_traces (m : Machine σ) : untraced m.traces = [] := by
  unfold traces
  split
  · rfl
  · exact m.untraced_traceEvents

theorem traces_of_quiet {m : Machine σ} (h : m.config.traceInstructions = false) :
    m.traces = [] := by
  unfold traces traceEvents
  rw [h]
  split <;> rfl

variable [OutputSink σ]

theorem events_step (m : Machine σ) :
    m.step.events = m.traces ++ m.notices m.step.result := by
  unfold traces
  cases m.stepCase with
  | idle hh heq =>
    rw [heq, hh]
    rfl
  | undefinedHalt hrun hundef _ heq =>
    rw [heq, hrun]
    simp only [notices, hundef, Bool.false_eq_true, if_false]
  | undefinedSkip next hrun _ _ hnext heq =>
    rw [heq, hrun, hnext]
    rfl
  | badRegister i index hrun hdec _ heq =>
    rw [heq, hrun]
    simp only [notices, hdec, Bool.false_eq_true, if_false]
  | refused r cause sink hrun hdec _ _ heq =>
    rw [heq, hrun]
    simp only [notices, hdec, Bool.false_eq_true, if_false]
  | executed i op done hrun _ _ _ heq =>
    rw [heq, hrun]
    rfl

theorem untraced_events_step (m : Machine σ) :
    untraced m.step.events = m.notices m.step.result := by
  rw [events_step, untraced_append, untraced_traces, untraced_notices, List.nil_append]

end Machine

end LS8
