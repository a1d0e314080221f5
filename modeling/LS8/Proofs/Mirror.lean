import LS8.Proofs.Bounded
import LS8.Proofs.Logging
import LS8.Proofs.Session
import LS8.Proofs.Unplugged

/-!
# Machines whose outputs answer alike

All that a machine learns from its output is whether a value was taken. So two machines that are the
same apart from their sinks stay so as long as the sinks give the same answers: every step, run and
session of one is that of the other, with the same results and the same log (`Mirrors.step`,
`Mirrors.run`, `Mirrors.session`). What the sinks hold may differ, as long as they agree on what
they will answer to the next value and to all that come after it (`AnswerAlike`).
-/

namespace LS8

/-- Sinks in this relation give the same answer to every value, and then they are in it again. -/
def AnswerAlike {σ τ : Type} [OutputSink σ] [OutputSink τ] (R : σ → τ → Prop) : Prop :=
  ∀ ⦃s t⦄, R s t → ∀ v, (OutputSink.emit v s).1 = (OutputSink.emit v t).1
    ∧ R (OutputSink.emit v s).2 (OutputSink.emit v t).2

theorem AnswerAlike.swap {σ τ : Type} [OutputSink σ] [OutputSink τ] {R : σ → τ → Prop}
    (hR : AnswerAlike R) : AnswerAlike (flip R) := by
  intro t s h v
  obtain ⟨hanswer, hsinks⟩ := hR h v
  exact ⟨hanswer.symm, hsinks⟩

/-- The machines are the same but for their sinks, and these are related. -/
structure Machine.Mirrors {σ τ : Type} (R : σ → τ → Prop) (a : Machine σ) (b : Machine τ) :
    Prop where
  machine : a.unplugged = b.unplugged
  sinks : R a.sink b.sink

/-- The reports say the same of machines that mirror each other. -/
structure Report.Mirrors {σ τ α : Type} (R : σ → τ → Prop) (x : Report σ α) (y : Report τ α) :
    Prop where
  result : x.result = y.result
  events : x.events = y.events
  machine : x.machine.Mirrors R y.machine

/-- The same answer from machines that mirror each other. -/
structure Reply.Mirrors {σ τ : Type} (R : σ → τ → Prop) (x : Reply σ) (y : Reply τ) : Prop where
  answer : x.answer = y.answer
  events : x.events = y.events
  machine : x.machine.Mirrors R y.machine

/-- The same answers, one after the other, from machines that mirror each other at the end. -/
structure Session.Mirrors {σ τ : Type} (R : σ → τ → Prop) (s : Session σ) (t : Session τ) :
    Prop where
  answers : s.answers = t.answers
  events : s.events = t.events
  machine : s.machine.Mirrors R t.machine

namespace Machine

variable {σ τ : Type}

theorem compute_withSink (m : Machine σ) (sink : τ) (opcode x y : UInt8) :
    (m.withSink sink).compute opcode x y = (m.compute opcode x y).map (·.withSink sink) := by
  unfold compute
  rcases Operation.register x with index | r
  · rfl
  · rcases Operation.register y with index | s
    · rfl
    · simp only [withSink]
      rcases Arithmetic.execute opcode (m.registers.get r) (m.registers.get s) <;> rfl

namespace Mirrors

variable {R : σ → τ → Prop} {a : Machine σ} {b : Machine τ}

theorem eq_withSink (h : a.Mirrors R b) : a = b.withSink a.sink := by
  have hplug := congrArg (Machine.withSink · a.sink) h.machine
  exact hplug

theorem swap (h : a.Mirrors R b) : b.Mirrors (flip R) a :=
  ⟨h.machine.symm, h.sinks⟩

theorem halted (h : a.Mirrors R b) : a.halted = b.halted :=
  congrArg Machine.halted h.machine

theorem config (h : a.Mirrors R b) : a.config = b.config :=
  congrArg Machine.config h.machine

theorem traces (h : a.Mirrors R b) : a.traces = b.traces :=
  congrArg Machine.traces h.machine

theorem notices (h : a.Mirrors R b) : a.notices = b.notices :=
  congrArg Machine.notices h.machine

theorem handsOut (h : a.Mirrors R b) : a.handsOut = b.handsOut :=
  congrArg Machine.handsOut h.machine

variable [OutputSink σ] [OutputSink τ]

/-! ## Steps and runs -/

theorem step (hR : AnswerAlike R) (h : a.Mirrors R b) : a.step.Mirrors R b.step := by
  have hevents : a.step.result = b.step.result → a.step.events = b.step.events := by
    intro hresult
    rw [events_step, events_step, h.traces, h.notices, hresult]
  rcases a.step_cases_unplugged with ⟨hresult, hmachine, htakes⟩ | ⟨v, cause, s, hv, hemit, hresult,
    hmachine⟩
  · obtain ⟨t, ht, hsinks⟩ : ∃ t, takeAll? b.sink b.handsOut.toList = some t
        ∧ R a.step.machine.sink t := by
      rw [← h.handsOut]
      rcases hv : a.handsOut with _ | v <;> rw [hv] at htakes
      · rw [← Option.some_inj.1 htakes]
        exact ⟨_, rfl, h.sinks⟩
      · have hemit := accepts_of_takeAll? htakes
        obtain ⟨hanswer, hsinks⟩ := hR h.sinks v
        rw [hemit] at hanswer hsinks
        exact ⟨_, takeAll?_of_accepts (Prod.ext hanswer.symm rfl), hsinks⟩
    obtain ⟨hresult', hmachine'⟩ := step_of_takes ht
    have hsame : a.step.result = b.step.result := by rw [hresult, hresult', h.machine]
    refine ⟨hsame, hevents hsame, ?_, ?_⟩
    · rw [hmachine, hmachine', h.machine]
      rfl
    · rw [hmachine']
      exact hsinks
  · obtain ⟨hanswer, hsinks⟩ := hR h.sinks v
    rw [hemit] at hanswer hsinks
    have hemit' : OutputSink.emit v b.sink = (.error cause, (OutputSink.emit v b.sink).2) :=
      Prod.ext hanswer.symm rfl
    obtain ⟨hresult', hmachine'⟩ := step_of_refuses (h.handsOut ▸ hv) hemit'
    have hsame : a.step.result = b.step.result := hresult.trans hresult'.symm
    refine ⟨hsame, hevents hsame, ?_, ?_⟩
    · rw [hmachine, hmachine']
      exact congrArg (fun m => m.failed {}) h.machine
    · rw [hmachine, hmachine']
      exact hsinks

theorem after (hR : AnswerAlike R) (h : a.Mirrors R b) : ∀ k : ℕ,
    (a.after k).Mirrors R (b.after k) ∧ a.log k = b.log k
  | 0 => ⟨h, rfl⟩
  | k + 1 => by
    obtain ⟨hk, hlog⟩ := h.after hR k
    have hstep := hk.step hR
    rw [after_succ, after_succ, log, log, hlog, hstep.events]
    exact ⟨hstep.machine, rfl⟩

theorem result (hR : AnswerAlike R) (h : a.Mirrors R b) (k : ℕ) :
    (a.after k).step.result = (b.after k).step.result :=
  ((h.after hR k).1.step hR).result

theorem advances (hR : AnswerAlike R) (h : a.Mirrors R b) {n : ℕ} (ha : a.Advances n) :
    b.Advances n := by
  intro k hk
  rw [← (h.after hR k).1.halted, ← h.result hR k]
  exact ha k hk

theorem endsAt (hR : AnswerAlike R) (h : a.Mirrors R b) {k : ℕ} {r : Except Fault Unit}
    (hends : a.EndsAt k r) : b.EndsAt k r := by
  cases hends with
  | halted ha hh => exact .halted (h.advances hR ha) ((h.after hR k).1.halted ▸ hh)
  | faulted ha hf => exact .faulted (h.advances hR ha) (h.result hR _ ▸ hf)

theorem runFor (hR : AnswerAlike R) (h : a.Mirrors R b) (n : ℕ) :
    (a.runFor n).Mirrors R (b.runFor n) := by
  rcases a.runFor_cases n with ⟨k, hk, r, hends, heq⟩ | ⟨ha, hrun, heq⟩
  · obtain ⟨hmachine, hlog⟩ := h.after hR k
    rw [heq, runFor_of_endsAt (h.endsAt hR hends) hk]
    exact ⟨rfl, hlog, hmachine⟩
  · obtain ⟨hmachine, hlog⟩ := h.after hR n
    rw [heq, runFor_of_running (h.advances hR ha) (hmachine.halted ▸ hrun)]
    exact ⟨rfl, hlog, hmachine⟩

theorem run (hR : AnswerAlike R) (h : a.Mirrors R b) {x : Report σ Unit} (hx : a.run = some x) :
    ∃ y, b.run = some y ∧ x.Mirrors R y := by
  rcases run_eq_some_cases hx with ⟨hmax, k, r, hends, rfl⟩ | ⟨limit, hmax, rfl⟩
  · obtain ⟨hmachine, hlog⟩ := h.after hR k
    exact ⟨_, run_of_endsAt (h.config ▸ hmax) (h.endsAt hR hends), rfl, hlog, hmachine⟩
  · obtain ⟨hresult, hevents, hmachine⟩ := h.runFor hR limit.toNat
    refine ⟨_, run_of_maxSteps (h.config ▸ hmax), ?_, hevents, hmachine⟩
    exact congrArg (Except.map fun _ => ()) hresult

theorem run_eq_none (hR : AnswerAlike R) (h : a.Mirrors R b) (ha : a.run = none) :
    b.run = none := by
  rw [Option.eq_none_iff_forall_ne_some]
  intro y hy
  obtain ⟨x, hx, -⟩ := h.swap.run hR.swap hy
  rw [ha] at hx
  cases hx

/-! ## Requests -/

theorem serve (hR : AnswerAlike R) (h : a.Mirrors R b) {request : Request} {x : Reply σ}
    (hx : a.serve request = some x) : ∃ y, b.serve request = some y ∧ x.Mirrors R y := by
  cases request with
  | step =>
    cases hx
    obtain ⟨hresult, hevents, hmachine⟩ := h.step hR
    exact ⟨_, rfl, congrArg Answer.stepped hresult, hevents, hmachine⟩
  | run =>
    obtain ⟨report, hreport, rfl⟩ := Option.map_eq_some_iff.1 hx
    obtain ⟨other, hother, hresult, hevents, hmachine⟩ := h.run hR hreport
    have hserve : b.serve .run = some ⟨.ran other.result, other.machine, other.events⟩ := by
      rw [Machine.serve, hother, Option.map_some]
    exact ⟨_, hserve, congrArg Answer.ran hresult, hevents, hmachine⟩
  | runFor limit =>
    cases hx
    obtain ⟨hresult, hevents, hmachine⟩ := h.runFor hR limit
    exact ⟨_, rfl, congrArg Answer.ranFor hresult, hevents, hmachine⟩
  | compute opcode i j =>
    have hcompute := b.compute_withSink a.sink opcode i j
    rw [← h.eq_withSink] at hcompute
    simp only [Machine.serve, run_computeInPlace, hcompute] at hx ⊢
    rcases hb : b.compute opcode i j with fault | after <;> rw [hb] at hx <;> cases hx
    · exact ⟨_, rfl, rfl, rfl, h⟩
    · obtain ⟨registers, rfl⟩ := compute_ok hb
      exact ⟨_, rfl, rfl, rfl, rfl, h.sinks⟩
  | loadSource _ | loadFile _ _ | setRegister _ _ | setMemory _ _ | setPc _ =>
    rw [h.eq_withSink] at hx
    cases hx
    exact ⟨_, rfl, rfl, rfl, rfl, h.sinks⟩

/-- What one machine answers in a session, the other one does too. -/
theorem session (hR : AnswerAlike R) : ∀ {requests : List Request} {a : Machine σ} {b : Machine τ}
    {s : Session σ}, a.Mirrors R b → a.session requests = some s →
      ∃ t, b.session requests = some t ∧ s.Mirrors R t
  | [], a, b, s, h, hs => by
    cases hs
    exact ⟨_, rfl, rfl, rfl, h⟩
  | request :: rest, a, b, s, h, hs => by
    obtain ⟨x, s', hx, hs', rfl⟩ := session_cons_eq_some_iff.1 hs
    obtain ⟨y, hy, hanswer, hevents, hmachine⟩ := h.serve hR hx
    obtain ⟨t, ht, hanswers, hlog, hend⟩ := session hR hmachine hs'
    refine ⟨_, session_cons_eq_some_iff.2 ⟨y, t, hy, ht, rfl⟩, ?_, ?_, hend⟩
    · rw [hanswer, hanswers]
    · rw [hevents, hlog]

end Mirrors

end Machine

end LS8
