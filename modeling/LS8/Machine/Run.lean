import LS8.Machine.Step

/-!
# Runs

A run takes steps until the machine halts, a step faults, or the steps it was given are used up; in
the last case the machine can be run on. A run without a limit may go on for ever, and then it has
no report.
-/

namespace LS8

namespace Machine

variable {σ : Type} [OutputSink σ]

/-- Takes at most `left` more steps of a run that was given `limit` of them, after the events in
`log`. -/
def runWithin (limit : Nat) : (left : Nat) → Machine σ → (log : Array Event) → Report σ Nat
  | 0, m, log =>
    ⟨if m.halted then .ok limit else .error (.stepLimitExceeded limit), m, log.toList⟩
  | left + 1, m, log =>
    if m.halted then ⟨.ok (limit - (left + 1)), m, log.toList⟩
    else
      match m.step with
      | ⟨.error fault, m, events⟩ => ⟨.error fault, m, (log ++ events).toList⟩
      | ⟨.ok _, m, events⟩ => runWithin limit left m (log ++ events)

/-- Runs until the machine halts, but takes at most `limit` steps. The result is the number of
steps taken. -/
def runFor (m : Machine σ) (limit : Nat) : Report σ Nat :=
  runWithin limit limit m #[]

/-- Runs until the machine halts, after the events in `log`. Nothing comes of a run that does not
end. -/
def runToHalt (m : Machine σ) (log : Array Event) : Option (Report σ Unit) :=
  if m.halted then some ⟨.ok (), m, log.toList⟩
  else
    match m.step with
    | ⟨.error fault, m, events⟩ => some ⟨.error fault, m, (log ++ events).toList⟩
    | ⟨.ok _, m, events⟩ => m |>.runToHalt (log ++ events)
partial_fixpoint

/-- Runs as configured: for the most steps allowed, or else until the machine halts. -/
def run (m : Machine σ) : Option (Report σ Unit) :=
  match m.config.maxSteps with
  | some limit =>
    let report := m.runFor limit.toNat
    some { report with result := report.result.map fun _ => () }
  | none => m.runToHalt #[]

/-- What was logged before a run only goes in front of its own log. -/
theorem runWithin_log (limit left : Nat) (m : Machine σ) (log : Array Event) :
    runWithin limit left m log = (runWithin limit left m #[]).after log.toList := by
  induction left generalizing m log with
  | zero => simp [runWithin, Report.after]
  | succ left ih =>
    unfold runWithin
    split
    · simp [Report.after]
    · split
      · simp [Report.after]
      · rename_i events _
        rw [ih, ih _ (#[] ++ events)]
        simp [Report.after]

end Machine

end LS8
