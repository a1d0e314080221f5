import LS8.Proofs.Core
import LS8.Proofs.Run

/-!
# Machines without their output

A machine shows its values to the output and learns from it only whether they were taken. Pulling
the output off leaves a machine that prints into nothing (`Machine.unplugged`), and a step of a
machine does what the step of the unplugged one does, as long as the sink takes the value that the
step hands out, if any; otherwise the step fails (`step_cases_unplugged`). So the values that a run
prints are a matter of the unplugged machine (`Machine.prints`), and a machine whose sink takes them
all goes through the states of the unplugged one (`after_eq_withSink`).
-/

namespace LS8

/-- A sink that takes every value and keeps none. -/
structure Discard where

instance : OutputSink Discard where
  emit _ sink := (.ok (), sink)

/-- The sink after it has taken the values one after the other, unless it refuses one. -/
def takeAll? {σ : Type} [OutputSink σ] (sink : σ) (values : List UInt8) : Option σ :=
  values.foldlM (fun sink v => match OutputSink.emit v sink with
    | (.ok (), next) => some next
    | (.error _, _) => none) sink

section Sinks

variable {σ : Type} [OutputSink σ]

theorem takeAll?_append (sink : σ) (l₁ l₂ : List UInt8) :
    takeAll? sink (l₁ ++ l₂) = (takeAll? sink l₁).bind fun next => takeAll? next l₂ := by
  unfold takeAll?
  rw [List.foldlM_append]
  rfl

theorem takeAll?_of_accepts {sink next : σ} {v : UInt8}
    (h : OutputSink.emit v sink = (.ok (), next)) : takeAll? sink [v] = some next := by
  simp [takeAll?, h]

theorem accepts_of_takeAll? {sink next : σ} {v : UInt8} (h : takeAll? sink [v] = some next) :
    OutputSink.emit v sink = (.ok (), next) := by
  rcases he : OutputSink.emit v sink with ⟨_ | _, s⟩ <;> simp [takeAll?, he] at h
  rw [h]

end Sinks

namespace Machine

variable {σ τ : Type}

/-- The machine with another sink. -/
def withSink (m : Machine σ) (sink : τ) : Machine τ where
  config := m.config
  registers := m.registers
  pc := m.pc
  memory := m.memory
  stats := m.stats
  halted := m.halted
  sink := sink

def unplugged (m : Machine σ) : Machine Discard :=
  m.withSink {}

theorem eq_withSink {a : Machine σ} {b : Machine τ} (core : a.core = b.core)
    (config : a.config = b.config) (halted : a.halted = b.halted) (stats : a.stats = b.stats) :
    a = b.withSink a.sink := by
  obtain ⟨_, _, _, _, _, _, _⟩ := a
  obtain ⟨_, _, _, _, _, _, _⟩ := b
  simp only [Machine.core, Core.mk.injEq] at core
  obtain ⟨rfl, rfl, rfl⟩ := core
  subst config halted stats
  rfl

/-- The value that a step of the machine hands to the output. -/
def handsOut (m : Machine σ) : Option UInt8 :=
  if m.halted then none else m.operation?.bind m.core.printed

@[simp] theorem handsOut_unplugged (m : Machine σ) : m.unplugged.handsOut = m.handsOut := rfl

theorem handsOut_of_halted {m : Machine σ} (h : m.halted = true) : m.handsOut = none := by
  unfold handsOut
  rw [if_pos h]

theorem handsOut_of_operation {m : Machine σ} {op : Operation} (hrun : m.halted = false)
    (h : m.operation? = some op) : m.handsOut = m.core.printed op := by
  unfold handsOut
  rw [hrun, h]
  rfl

theorem handsOut_of_no_operation {m : Machine σ} (h : m.operation? = none) : m.handsOut = none := by
  unfold handsOut
  rw [h]
  split <;> rfl

theorem exists_print_of_handsOut {m : Machine σ} {v : UInt8} (h : m.handsOut = some v) :
    m.halted = false ∧ ∃ r, m.operation? = some (.print r) ∧ v = m.registers.get r := by
  unfold handsOut at h
  split_ifs at h with hh
  obtain ⟨op, hop, hv⟩ := Option.bind_eq_some_iff.1 h
  refine ⟨by simpa using hh, ?_⟩
  cases op with
  | print r =>
    cases hv
    exact ⟨r, hop, rfl⟩
  | _ => cases hv

theorem operation?_of_undefined {m : Machine σ} (h : Instruction.decode (m.fetch 0) = none) :
    m.operation? = none := by
  unfold operation?
  rw [h]
  rfl

theorem operation?_of_bad {m : Machine σ} {i : Instruction} {index : UInt8}
    (hdec : Instruction.decode (m.fetch 0) = some i)
    (hbad : Operation.resolve i (m.fetch 1) (m.fetch 2) = .error index) : m.operation? = none := by
  unfold operation?
  rw [hdec, Option.bind_some, hbad]
  rfl

theorem completes_unplugged {m : Machine σ} {op : Operation} (hrun : m.halted = false)
    (hop : m.operation? = some op) : m.unplugged.Completes op :=
  completes_of_operation hrun hop fun _ _ => rfl

variable [OutputSink σ]

/-- A step is that of the unplugged machine, and the sink takes what is handed out, or the sink
refuses it. -/
theorem step_cases_unplugged (m : Machine σ) :
    (m.step.result = m.unplugged.step.result
        ∧ m.step.machine = m.unplugged.step.machine.withSink m.step.machine.sink
        ∧ takeAll? m.sink m.handsOut.toList = some m.step.machine.sink)
      ∨ ∃ v cause sink, m.handsOut = some v ∧ OutputSink.emit v m.sink = (.error cause, sink)
        ∧ m.step.result = .error (.output cause) ∧ m.step.machine = m.failed sink := by
  cases m.stepCase with
  | idle hh heq =>
    have hunplugged : m.unplugged.step = ⟨.ok .halted, m.unplugged, []⟩ := step_of_halted hh
    rw [heq, hunplugged, handsOut_of_halted hh]
    exact .inl ⟨rfl, rfl, rfl⟩
  | undefinedHalt hrun hundef hpol heq =>
    rw [heq, step_of_undefined_halt (m := m.unplugged) hrun hundef hpol,
      handsOut_of_no_operation (operation?_of_undefined hundef)]
    exact .inl ⟨rfl, rfl, rfl⟩
  | undefinedSkip next hrun hundef hpol hnext heq =>
    subst hnext
    rw [heq, step_of_undefined_skip (m := m.unplugged) hrun hundef hpol,
      handsOut_of_no_operation (operation?_of_undefined hundef)]
    exact .inl ⟨rfl, rfl, rfl⟩
  | badRegister i index hrun hdec hbad heq =>
    rw [heq, step_of_bad_register (m := m.unplugged) hrun hdec hbad,
      handsOut_of_no_operation (operation?_of_bad hdec hbad)]
    exact .inl ⟨rfl, rfl, rfl⟩
  | refused r cause sink hrun hdec hres hrefused heq =>
    have hop : m.operation? = some (.print r) := operation?_eq_some_iff.2 ⟨_, hdec, hres⟩
    refine .inr ⟨_, cause, sink, handsOut_of_operation hrun hop, hrefused, ?_, ?_⟩ <;> rw [heq]
  | executed i op done hrun hdec hres hperf heq =>
    have hdone := completes_of_perform hrun hdec hres hperf heq
    have hunplugged := completes_unplugged hrun hdone.operation
    refine .inl ⟨hdone.result.trans hunplugged.result.symm, ?_, ?_⟩
    · refine eq_withSink ?_ ?_ ?_ ?_
      · rw [hdone.core, hunplugged.core]
        rfl
      · rw [hdone.config, hunplugged.config]
        rfl
      · rw [hdone.halted, hunplugged.halted]
      · rw [hdone.stats, hunplugged.stats]
        rfl
    · rw [handsOut_of_operation hrun hdone.operation]
      rcases hv : m.core.printed op with _ | v
      · rw [hdone.quiet hv]
        rfl
      · exact takeAll?_of_accepts (hdone.accepted v hv)

theorem step_of_takes {m : Machine σ} {sink : σ}
    (h : takeAll? m.sink m.handsOut.toList = some sink) :
    m.step.result = m.unplugged.step.result
      ∧ m.step.machine = m.unplugged.step.machine.withSink sink := by
  rcases m.step_cases_unplugged with ⟨hresult, hmachine, htakes⟩ | ⟨v, cause, s, hv, hemit, -, -⟩
  · obtain rfl : sink = m.step.machine.sink := Option.some_inj.1 (h.symm.trans htakes)
    exact ⟨hresult, hmachine⟩
  · rw [hv] at h
    have haccepts := accepts_of_takeAll? h
    rw [hemit] at haccepts
    cases haccepts

theorem step_of_refuses {m : Machine σ} {v : UInt8} {cause : IoError} {sink : σ}
    (hv : m.handsOut = some v) (hemit : OutputSink.emit v m.sink = (.error cause, sink)) :
    m.step.result = .error (.output cause) ∧ m.step.machine = m.failed sink := by
  rcases m.step_cases_unplugged with ⟨-, -, htakes⟩ | ⟨w, cause', s, hw, hemit', hresult, hmachine⟩
  · rw [hv] at htakes
    have haccepts := accepts_of_takeAll? htakes
    rw [hemit] at haccepts
    cases haccepts
  · obtain rfl : v = w := Option.some_inj.1 (hv.symm.trans hw)
    rw [hemit] at hemit'
    cases hemit'
    exact ⟨hresult, hmachine⟩

/-! ## Runs -/

/-- The values that the first `n` steps print. -/
def prints (m : Machine Discard) : ℕ → List UInt8
  | 0 => []
  | n + 1 => m.prints n ++ (m.after n).handsOut.toList

theorem prints_prefix (m : Machine Discard) {j n : ℕ} (h : j ≤ n) : m.prints j <+: m.prints n := by
  induction h with
  | refl => exact List.prefix_refl _
  | step _ ih => exact ih.trans (List.prefix_append _ _)

/-- A machine whose sink takes what is printed goes through the states of the unplugged one. -/
theorem after_eq_withSink {m : Machine σ} : ∀ {n : ℕ} {sink : σ},
    takeAll? m.sink (m.unplugged.prints n) = some sink →
      m.after n = (m.unplugged.after n).withSink sink
  | 0, _, h => by
    cases h
    rfl
  | n + 1, sink, h => by
    rw [prints, takeAll?_append] at h
    obtain ⟨s, hs, hnext⟩ := Option.bind_eq_some_iff.1 h
    have hbefore := after_eq_withSink hs
    rw [after_succ, after_succ, hbefore]
    exact (step_of_takes (m := (m.unplugged.after n).withSink s) hnext).2

theorem result_eq_of_takes {m : Machine σ} {n : ℕ} {sink : σ}
    (h : takeAll? m.sink (m.unplugged.prints (n + 1)) = some sink) :
    (m.after n).step.result = (m.unplugged.after n).step.result := by
  rw [prints, takeAll?_append] at h
  obtain ⟨s, hs, hnext⟩ := Option.bind_eq_some_iff.1 h
  rw [after_eq_withSink hs]
  exact (step_of_takes (m := (m.unplugged.after n).withSink s) hnext).1

theorem emitted_step (m : Machine Discard) :
    m.step.machine.stats.emitted = m.stats.emitted + m.handsOut.toList.length := by
  cases m.stepCase with
  | idle hh heq =>
    rw [heq, handsOut_of_halted hh]
    rfl
  | undefinedHalt _ hundef _ heq | undefinedSkip _ _ hundef _ _ heq =>
    rw [heq, handsOut_of_no_operation (operation?_of_undefined hundef)]
    rfl
  | badRegister _ _ _ hdec hbad heq =>
    rw [heq, handsOut_of_no_operation (operation?_of_bad hdec hbad)]
    rfl
  | refused _ _ _ _ _ _ hrefused _ => cases hrefused
  | executed i op done hrun hdec hres hperf heq =>
    have hdone := completes_of_perform hrun hdec hres hperf heq
    rw [hdone.stats, handsOut_of_operation hrun hdone.operation]
    cases op with
    | compute o _ _ => cases o <;> rfl
    | _ => rfl

theorem emitted_after (m : Machine Discard) (n : ℕ) :
    (m.after n).stats.emitted = m.stats.emitted + (m.prints n).length := by
  induction n with
  | zero => rfl
  | succ n ih =>
    rw [after_succ, emitted_step, ih, prints, List.length_append]
    omega

end Machine

end LS8
